import FastTransport.Protocol.Connection
import FastTransport.Protocol.InFlightHistory
import FastTransport.Protocol.ReliableDelivery
import FastTransport.Protocol.UDPQueue

/-! One end: a connection with its send, write and receive threads, from `Send` down to the socket and
from the socket up to `Recv`, until it is closed and deleted. -/

namespace FastTransport.Protocol

namespace SendQueue

lemma sendPackets_false (q : SendQueue) (packets : List Packet) :
    q.sendPackets packets false =
      { q with serviceNeedToSend := q.serviceNeedToSend ++
                 packets.map fun p => ⟨{ p with seqNumber := seqLimit - 1 }, false, 0⟩ } := by
  induction packets generalizing q with
  | nil => simp [sendPackets]
  | cons p packets ih =>
    rw [sendPackets, List.foldl_cons]
    refine (ih _).trans ?_
    simp [sendPacket]

lemma sendPackets_true (q : SendQueue) (packets : List Packet) (service : List OutgoingPacket) :
    (q.sendPackets packets true).serviceNeedToSend = q.serviceNeedToSend ∧
      { q.sendPackets packets true with serviceNeedToSend := service } =
        SendQueue.sendPackets { q with serviceNeedToSend := service } packets true := by
  induction packets generalizing q with
  | nil => exact ⟨rfl, rfl⟩
  | cons p packets ih =>
    rw [sendPackets, List.foldl_cons]
    exact ih _

end SendQueue

namespace Connection

/-- `GetPacketsToSend`: the packets keep the send times they have until a write thread reaches them. -/
def takePacketsToSend (c : Connection) (size : ℕ) : List OutgoingPacket × Connection :=
  let service := c.sendQueue.getServicePacketsToSend
  let data := service.2.getPacketsToSend size
  (service.1 ++ data.1, { c with sendQueue := data.2 })

lemma getPacketsToSend_eq (c : Connection) (size now : ℕ) :
    c.getPacketsToSend size now =
      ((c.takePacketsToSend size).1.map fun p => p.setSendTime now, (c.takePacketsToSend size).2) := rfl

def Late (c : Connection) (now : ℕ) : Prop := c.connectionState.getTimeout < now - c.lastPacketReceive

instance (c : Connection) (now : ℕ) : Decidable (c.Late now) := inferInstanceAs (Decidable (_ < _))

lemma run_eq (c : Connection) (now timeout : ℕ) :
    c.run now timeout =
      if c.Late now then c.onTimeOut.map fun c' => { c' with lastPacketReceive := now }
      else (c.sendPackets now timeout).map processAcks := rfl

def sendDataPackets (c : Connection) (now : ℕ) : List Packet :=
  if ¬ c.Late now ∧ c.connectionState = .dataState then c.sendUserData.map (dataPacket c.route) else []

def addFreeUserSendPackets (c : Connection) (now timeout : ℕ) : List Packet :=
  if c.Late now then []
  else ((c.sendPackets now timeout).map fun c' => c'.inFlightQueue.processAcks.1).getD []

end Connection

namespace Link

lemma Acknowledged.sacks_of {q : RecvQueue} {sacks sacks' : List Packet} {f : InFlightQueue} {freed : List Packet}
    (h : Acknowledged q sacks f freed)
    (hk : ∀ k ∈ sacks', ∃ k₀ ∈ sacks, k.ackNumber = k₀.ackNumber ∧ k.acks = k₀.acks) :
    Acknowledged q sacks' f freed := by
  refine ⟨h.selectiveAcks, fun k hmem => ?_, fun k hmem => ?_, h.receivedAcks, h.lastAckNumber, h.freed⟩
  · obtain ⟨k₀, hk₀, hack, -⟩ := hk k hmem
    exact hack ▸ h.sackNumber k₀ hk₀
  · obtain ⟨k₀, hk₀, -, hacks⟩ := hk k hmem
    exact hacks ▸ h.sackAcks k₀ hk₀

/-- What was handed out may be held in any order and for any reason, and sent any number of times. -/
lemma Inv.rearrange {s : Link} (hs : s.Inv) {out : List (List OutgoingPacket)} {wire sacks : List Packet}
    (hout : (out.flatten.map OutgoingPacket.packet).Perm (s.handedOut.flatten.map OutgoingPacket.packet))
    (hack : ∀ p ∈ out.flatten, p.needAck = true)
    (hwire : ∀ p ∈ wire, p ∈ s.wire ∨ ∃ o ∈ s.held, o.packet = p)
    (hsacks : ∀ k ∈ sacks, ∃ k₀ ∈ s.sacks, k.ackNumber = k₀.ackNumber ∧ k.acks = k₀.acks) :
    Inv { s with handedOut := out, wire := wire, sacks := sacks } := by
  refine hs.move rfl rfl rfl rfl (fun p hp => ?_) ?_ hwire (hs.acks.sacks_of hsacks)
  · rcases mem_held.mp hp with hp | hp | hp
    · exact hs.needAck p (mem_held.mpr (Or.inl hp))
    · exact hack p hp
    · exact hs.needAck p (mem_held.mpr (Or.inr (Or.inr hp)))
  · apply List.perm_iff_count.mpr
    intro p
    have hc := hout.count_eq p
    simp only [held, List.map_append, List.count_append] at hc ⊢
    omega

lemma mem_stamp {n : ℕ} {ps : List Packet} {p : Packet} (h : p ∈ stamp n ps) :
    ∃ q ∈ ps, ∃ k, p = { q with seqNumber := k } := by
  induction ps generalizing n with
  | nil => cases h
  | cons q ps ih =>
    rcases List.mem_cons.mp h with rfl | h
    · exact ⟨q, List.mem_cons_self, n + 1, rfl⟩
    · obtain ⟨q', hq', k, hk⟩ := ih h
      exact ⟨q', List.mem_cons_of_mem _ hq', k, hk⟩

lemma payload_stamp (n : ℕ) (ps : List Packet) : (stamp n ps).map Packet.payload = ps.map Packet.payload := by
  induction ps generalizing n with
  | nil => rfl
  | cons p ps ih => rw [stamp, List.map_cons, List.map_cons, ih]

lemma Inv.addMixed {s : Link} (hs : s.Inv) {rest batch : List OutgoingPacket}
    (hout : ((rest ++ batch.filter OutgoingPacket.needAck).map OutgoingPacket.packet).Perm
      (s.handedOut.flatten.map OutgoingPacket.packet)) (hack : ∀ p ∈ rest, p.needAck = true) :
    Inv { s with handedOut := [rest]
                 inFlightQueue := (s.inFlightQueue.addQueue batch).2
                 freed := s.freed ++ (s.inFlightQueue.addQueue batch).1.2 } := by
  obtain ⟨hsampled, hacks, hfree, -⟩ := s.inFlightQueue.addQueue_filter batch
  have hsplit : Inv { s with handedOut := [rest, batch.filter OutgoingPacket.needAck] } := by
    apply hs.rearrange _ _ (fun p hp => Or.inl hp) (fun k hk => ⟨k, hk, rfl, rfl⟩)
    · rwa [List.flatten_cons, List.flatten_singleton]
    · intro p hp
      rw [List.flatten_cons, List.flatten_singleton] at hp
      rcases List.mem_append.mp hp with hp | hp
      · exact hack p hp
      · exact (List.mem_filter.mp hp).2
  have hadd : Inv { s with
      handedOut := [rest]
      inFlightQueue := (s.inFlightQueue.addQueue (batch.filter OutgoingPacket.needAck)).2
      freed := s.freed ++ (s.inFlightQueue.addQueue (batch.filter OutgoingPacket.needAck)).1.2 } :=
    hsplit.addQueue (i := 1) rfl
  refine hadd.move rfl rfl rfl rfl ?_ ?_ (fun p hp => Or.inl hp) ?_
  · intro p hp
    simp only [held, hsampled] at hp
    exact hadd.needAck p hp
  · simp only [held, hsampled, hfree]
    exact List.Perm.refl _
  · rw [hfree]
    exact { hadd.acks with receivedAcks := fun n hn => hadd.acks.receivedAcks n (hacks ▸ hn) }

lemma Inv.recvSized {s : Link} (hs : s.Inv) (size : ℕ) :
    Inv { s with recvQueue := { s.recvQueue with data := s.recvQueue.data.drop size }
                 received := s.received ++ s.recvQueue.data.take size } := by
  refine ⟨hs.number, hs.needAck, hs.kept, hs.wire, ⟨hs.queue.begin_pos, hs.queue.slot⟩, hs.slot, ?_, hs.lastAck_le,
    hs.acks.receiver (fun n hn => hn) le_rfl hs.acks.selectiveAcks⟩
  simp only [List.append_assoc, List.take_append_drop]
  exact hs.delivered

end Link

/-- One end. `inbox` has every packet ever written to this end's address; of the last four, `sent` is
what the user gave to `Send`, `numbered` what of it has a number, `freed` the packets given back to the
user, `received` what the user took. -/
structure Station where
  connection : Connection
  udpQueue : UDPQueue
  inFlightPackets : List OutgoingPacket
  cleanRecvBuffers : Bool
  cleanSendBuffers : Bool
  freeSendPackets : List Packet
  inbox : List Packet
  sent : List Packet
  numbered : List Packet
  freed : List Packet
  received : List Packet

namespace Station

def create (state : ConnectionState) (key : ConnectionKey) (now threadCount : ℕ) (free : List Packet) : Station :=
  ⟨Connection.create state key now free, UDPQueue.create threadCount, [], false, false, [], [], [], [], [], []⟩

def CanBeDeleted (s : Station) : Prop := s.cleanRecvBuffers = true ∧ s.cleanSendBuffers = true

instance (s : Station) : Decidable s.CanBeDeleted := inferInstanceAs (Decidable (_ ∧ _))

inductive Action
  | send (data : List Packet)
  | run (now timeout : ℕ)
  | sendQueueStep (size : ℕ)
  | processSentPackets
  | getOutgoingPacketsToSend (thread size : ℕ)
  | sendMsg (thread : ℕ) (clock : ℕ → ℕ)
  | giveBack (thread : ℕ)
  | onReceive (copy now : ℕ)
  | processRecvPackets
  | recv
  | recvSized (size : ℕ)
  | close
  | removeSendClosedConnection
  | removeRecvClosedConnection

def Action.data : Action → List Packet
  | .send data => data
  | _ => []

/-- A deleted connection has left the table: its user still has it, the threads no longer find it. -/
def step (s : Station) : Action → Option (Station × List Packet)
  | .send data => some ({ s with connection := s.connection.send data, sent := s.sent ++ data }, [])
  | .run now timeout =>
    if s.CanBeDeleted then none
    else (s.connection.run now timeout).map fun c =>
      ({ s with connection := c
                numbered := s.numbered ++ s.connection.sendDataPackets now
                freed := s.freed ++ s.connection.addFreeUserSendPackets now timeout }, [])
  | .sendQueueStep size =>
    if s.inFlightPackets = [] then
      let taken := if s.CanBeDeleted then ([], s.connection) else s.connection.takePacketsToSend size
      let sent := s.udpQueue.send taken.1
      some ({ s with connection := taken.2, udpQueue := sent.2, inFlightPackets := sent.1 }, [])
    else none
  | .processSentPackets =>
    if s.CanBeDeleted then
      some ({ s with inFlightPackets := []
                     freeSendPackets := s.freeSendPackets ++ s.inFlightPackets.map OutgoingPacket.packet }, [])
    else
      some ({ s with inFlightPackets := []
                     connection := s.connection.processSentPackets s.inFlightPackets
                     freed := s.freed ++ (s.connection.inFlightQueue.addQueue s.inFlightPackets).1.2 }, [])
  | .getOutgoingPacketsToSend thread size =>
    (s.udpQueue.getOutgoingPacketsToSend thread size).map fun u => ({ s with udpQueue := u }, [])
  | .sendMsg thread clock => (s.udpQueue.sendMsg thread clock).map fun r => ({ s with udpQueue := r.2 }, r.1)
  | .giveBack thread => (s.udpQueue.giveBack thread).map fun u => ({ s with udpQueue := u }, [])
  | .onReceive copy now =>
    if s.CanBeDeleted then none
    else (s.inbox[copy]?).bind fun p =>
      (s.connection.onRecvPackets now p).map fun c => ({ s with connection := c }, [])
  | .processRecvPackets =>
    if s.CanBeDeleted then none
    else s.connection.processRecvPackets.map fun c => ({ s with connection := c }, [])
  | .recv => some ({ s with connection := s.connection.recv.2, received := s.received ++ s.connection.recv.1 }, [])
  | .recvSized size =>
    let data := s.connection.recvQueue.data
    some ({ s with connection := { s.connection with recvQueue := { s.connection.recvQueue with data := data.drop size } }
                   received := s.received ++ data.take size }, [])
  | .close => some ({ s with connection := { s.connection with closed := true } }, [])
  | .removeSendClosedConnection =>
    if s.connection.closed ∧ ¬ s.CanBeDeleted then
      let r := s.connection.inFlightQueue.getAllPackets
      some ({ s with connection := { s.connection with inFlightQueue := r.2 }
                     cleanSendBuffers := true
                     freeSendPackets := s.freeSendPackets ++ r.1 }, [])
    else none
  | .removeRecvClosedConnection =>
    if s.connection.closed ∧ ¬ s.CanBeDeleted then some ({ s with cleanRecvBuffers := true }, []) else none

def deliver (s : Station) (packets : List Packet) : Station := { s with inbox := s.inbox ++ packets }

def handedOut (s : Station) : List OutgoingPacket :=
  (s.udpQueue.held ++ s.inFlightPackets).filter OutgoingPacket.needAck ++
    (s.freeSendPackets.filter fun p => p.packetType = .data).map fun p => ⟨p, true, 0⟩

def servicePackets (s : Station) : List OutgoingPacket :=
  s.connection.sendQueue.serviceNeedToSend ++ s.udpQueue.held ++ s.inFlightPackets

def link (s r : Station) : Link where
  sendQueue := { s.connection.sendQueue with serviceNeedToSend := [] }
  inFlightQueue := s.connection.inFlightQueue
  handedOut := [s.handedOut]
  recvQueue := r.connection.recvQueue
  wire := r.inbox.filter fun p => p.packetType = .data
  sacks := (r.servicePackets.map OutgoingPacket.packet ++ s.inbox).filter fun p => p.packetType = .sack
  submitted := s.numbered
  freed := s.freed
  received := r.received


variable {s r : Station}

/-- What holds between a sending and a receiving station, whatever the other direction does. -/
structure Sound (s r : Station) : Prop where
  link : (s.link r).Inv
  payload : (s.numbered ++ s.connection.sendUserData).map Packet.payload = s.sent.map Packet.payload
  clean : ∀ p ∈ s.numbered ++ s.connection.sendUserData, p.ackNumber = 0
  data : ∀ p ∈ s.numbered, p.packetType = .data
  quiet : ∀ p ∈ s.connection.sendQueue.serviceNeedToSend, p.needAck = false
  service : ∀ p ∈ s.servicePackets, p.needAck = false → p.packet.packetType ≠ .data

lemma sound_create (state state' : ConnectionState) (key key' : ConnectionKey) (now now' threads threads' : ℕ)
    (free free' : List Packet) :
    (create state key now threads free).Sound (create state' key' now' threads' free') where
  link := by
    have hlink : (create state key now threads free).link (create state' key' now' threads' free') =
        { Link.initial with handedOut := [[]] } := by
      simp [Station.link, create, handedOut, servicePackets, UDPQueue.held_create, Connection.create, Link.initial,
        SendQueue.create]
    rw [hlink]
    exact { Link.inv_initial with needAck := Link.inv_initial.needAck, kept := Link.inv_initial.kept }
  payload := rfl
  clean := by simp [create, Connection.create]
  data := by simp [create]
  quiet := by simp [create, Connection.create, SendQueue.create]
  service := by simp [create, Connection.create, SendQueue.create, servicePackets, UDPQueue.held_create]

lemma mem_held_of_udpQueue {o : OutgoingPacket} (ho : o ∈ s.udpQueue.held) (hack : o.needAck = true) :
    o ∈ (s.link r).held := by
  apply Link.mem_held.mpr
  refine Or.inr (Or.inl ?_)
  rw [Station.link, List.flatten_singleton, handedOut]
  exact List.mem_append_left _ (List.mem_filter.mpr ⟨List.mem_append_left _ ho, hack⟩)

lemma needAck_handedOut {p : OutgoingPacket} (hp : p ∈ [s.handedOut].flatten) : p.needAck = true := by
  rw [List.flatten_singleton, handedOut] at hp
  rcases List.mem_append.mp hp with hp | hp
  · exact (List.mem_filter.mp hp).2
  · obtain ⟨-, -, rfl⟩ := List.mem_map.mp hp
    rfl

lemma Sound.wire (h : s.Sound r) {packets : List Packet}
    (hout : ∀ p ∈ packets, ∃ o ∈ s.udpQueue.held, o.packet = p) :
    ∀ p ∈ (r.inbox ++ packets).filter fun p => p.packetType = .data,
      p ∈ (s.link r).wire ∨ ∃ o ∈ (s.link r).held, o.packet = p := by
  intro p hp
  obtain ⟨hp, ht⟩ := List.mem_filter.mp hp
  rcases List.mem_append.mp hp with hp | hp
  · exact Or.inl (List.mem_filter.mpr ⟨hp, ht⟩)
  · obtain ⟨o, ho, rfl⟩ := hout p hp
    cases hack : o.needAck with
    | false =>
      have hmem : o ∈ s.servicePackets := List.mem_append_left _ (List.mem_append_right _ ho)
      exact absurd (of_decide_eq_true ht) (h.service o hmem hack)
    | true => exact Or.inr ⟨o, mem_held_of_udpQueue ho hack, rfl⟩

lemma map_packet_filter (l : List OutgoingPacket) : (l.filter OutgoingPacket.needAck).map OutgoingPacket.packet =
    ((l.map OutgoingPacket.untimed).filter Prod.snd).map Prod.fst := by
  rw [List.filter_map, List.map_map]
  rfl

lemma mem_of_untimed_perm {l l' : List OutgoingPacket}
    (h : (l.map OutgoingPacket.untimed).Perm (l'.map OutgoingPacket.untimed)) {p : OutgoingPacket} (hp : p ∈ l) :
    ∃ o ∈ l', o.packet = p.packet ∧ o.needAck = p.needAck := by
  obtain ⟨o, ho, heq⟩ := List.mem_map.mp (h.mem_iff.mp (List.mem_map_of_mem hp))
  exact ⟨o, ho, congrArg Prod.fst heq, congrArg Prod.snd heq⟩

lemma Sound.shift (h : s.Sound r) (h' : r.Sound s) {u : UDPQueue} {inFlight : List OutgoingPacket} {packets : List Packet}
    (hperm : ((u.held ++ inFlight).map OutgoingPacket.untimed).Perm
      ((s.udpQueue.held ++ s.inFlightPackets).map OutgoingPacket.untimed))
    (hout : ∀ p ∈ packets, ∃ o ∈ s.udpQueue.held, o.packet = p) :
    Sound { s with udpQueue := u, inFlightPackets := inFlight } (r.deliver packets) ∧
      (r.deliver packets).Sound { s with udpQueue := u, inFlightPackets := inFlight } := by
  have hservice : ∀ p ∈ servicePackets { s with udpQueue := u, inFlightPackets := inFlight },
      ∃ o ∈ s.servicePackets, o.packet = p.packet ∧ o.needAck = p.needAck := by
    intro p hp
    simp only [servicePackets, List.append_assoc] at hp ⊢
    rcases List.mem_append.mp hp with hp | hp
    · exact ⟨p, List.mem_append_left _ hp, rfl, rfl⟩
    · obtain ⟨o, ho, heq⟩ := mem_of_untimed_perm hperm hp
      exact ⟨o, List.mem_append_right _ ho, heq⟩
  refine ⟨⟨?_, h.payload, h.clean, h.data, h.quiet, ?_⟩, ⟨?_, h'.payload, h'.clean, h'.data, h'.quiet, h'.service⟩⟩
  · apply h.link.rearrange
    · simp only [Station.link, List.flatten_singleton, handedOut, List.map_append, map_packet_filter]
      rw [← List.map_append, ← List.map_append]
      exact ((hperm.filter _).map _).append_right _
    · exact fun p hp => needAck_handedOut hp
    · exact h.wire hout
    · exact fun k hk => ⟨k, hk, rfl, rfl⟩
  · intro p hp hack
    obtain ⟨o, ho, hpacket, hneed⟩ := hservice p hp
    rw [← hpacket]
    exact h.service o ho (hneed.trans hack)
  · apply h'.link.rearrange
    · exact List.Perm.refl _
    · exact fun p hp => needAck_handedOut hp
    · exact fun p hp => Or.inl hp
    · intro k hk
      refine ⟨k, ?_, rfl, rfl⟩
      obtain ⟨hk, ht⟩ := List.mem_filter.mp hk
      apply List.mem_filter.mpr
      refine ⟨?_, ht⟩
      rcases List.mem_append.mp hk with hk | hk
      · obtain ⟨p, hp, rfl⟩ := List.mem_map.mp hk
        obtain ⟨o, ho, hpacket, -⟩ := hservice p hp
        rw [← hpacket]
        exact List.mem_append_left _ (List.mem_map_of_mem ho)
      · rcases List.mem_append.mp hk with hk | hk
        · exact List.mem_append_right _ hk
        · obtain ⟨o, ho, rfl⟩ := hout k hk
          exact List.mem_append_left _ (List.mem_map_of_mem (List.mem_append_left _ (List.mem_append_right _ ho)))

lemma Sound.reverse (h' : r.Sound s) {t : Station} (hrecv : t.connection.recvQueue = s.connection.recvQueue)
    (hinbox : t.inbox = s.inbox) (hreceived : t.received = s.received)
    (hsacks : ∀ p ∈ t.servicePackets, p.packet.packetType = .sack → ∃ o ∈ s.servicePackets, o.packet = p.packet) :
    r.Sound t := by
  refine ⟨?_, h'.payload, h'.clean, h'.data, h'.quiet, h'.service⟩
  have hlink : r.link t = { r.link s with sacks := (r.link t).sacks } := by
    simp only [Station.link, hrecv, hinbox, hreceived]
  rw [hlink]
  apply h'.link.rearrange (List.Perm.refl _) (fun p hp => needAck_handedOut hp) (fun p hp => Or.inl hp)
  intro k hk
  refine ⟨k, ?_, rfl, rfl⟩
  obtain ⟨hk, ht⟩ := List.mem_filter.mp hk
  apply List.mem_filter.mpr
  refine ⟨?_, ht⟩
  rcases List.mem_append.mp hk with hk | hk
  · obtain ⟨p, hp, rfl⟩ := List.mem_map.mp hk
    obtain ⟨o, ho, hpacket⟩ := hsacks p hp (of_decide_eq_true ht)
    rw [← hpacket]
    exact List.mem_append_left _ (List.mem_map_of_mem ho)
  · exact List.mem_append_right _ hk

lemma Sound.send (h : s.Sound r) {data : List Packet} (hclean : ∀ p ∈ data, p.ackNumber = 0) :
    Sound { s with connection := s.connection.send data, sent := s.sent ++ data } r := by
  refine ⟨h.link, ?_, ?_, h.data, h.quiet, h.service⟩
  · rw [Connection.send, ← List.append_assoc, List.map_append, h.payload, List.map_append]
  · intro p hp
    rw [Connection.send, ← List.append_assoc] at hp
    rcases List.mem_append.mp hp with hp | hp
    · exact h.clean p hp
    · exact hclean p hp

lemma Sound.processSentPackets (h : s.Sound r) :
    Sound { s with inFlightPackets := []
                   connection := s.connection.processSentPackets s.inFlightPackets
                   freed := s.freed ++ (s.connection.inFlightQueue.addQueue s.inFlightPackets).1.2 } r := by
  refine ⟨?_, h.payload, h.clean, h.data, h.quiet, fun p hp => h.service p ?_⟩
  · apply @Link.Inv.addMixed _ h.link (handedOut { s with inFlightPackets := [] }) s.inFlightPackets
    · apply List.Perm.map
      apply List.perm_iff_count.mpr
      intro p
      simp only [Station.link, handedOut, List.flatten_singleton, List.filter_append, List.append_nil, List.count_append]
      omega
    · exact fun p hp => needAck_handedOut (s := { s with inFlightPackets := [] }) (by rwa [List.flatten_singleton])
  · simp only [servicePackets, List.append_nil] at hp ⊢
    exact List.mem_append_left _ hp

lemma Sound.held_data (h : s.Sound r) {o : OutgoingPacket} (ho : o ∈ (s.link r).held) :
    o.packet.packetType = .data := by
  have hmem := h.link.kept.mem_iff.mp (List.mem_append_left _ (List.mem_map_of_mem ho))
  obtain ⟨p, hp, n, hn⟩ := Link.mem_stamp hmem
  rw [hn]
  exact h.data p hp

lemma Sound.needAck_iff (h : s.Sound r) {o : OutgoingPacket} (ho : o ∈ s.udpQueue.held ++ s.inFlightPackets) :
    o.needAck = true ↔ o.packet.packetType = .data := by
  constructor
  · intro hack
    apply h.held_data
    apply Link.mem_held.mpr
    refine Or.inr (Or.inl ?_)
    rw [Station.link, List.flatten_singleton, handedOut]
    exact List.mem_append_left _ (List.mem_filter.mpr ⟨ho, hack⟩)
  · intro ht
    by_contra hack
    rw [Bool.not_eq_true] at hack
    have hmem : o ∈ s.servicePackets := by
      rw [servicePackets, List.append_assoc]
      exact List.mem_append_right _ ho
    exact h.service o hmem hack ht

lemma map_packet_wrap (ps : List Packet) :
    (ps.map fun p => (⟨p, true, 0⟩ : OutgoingPacket)).map OutgoingPacket.packet = ps := by
  simp [Function.comp_def]

lemma Sound.dropSentPackets (h : s.Sound r) :
    Sound { s with inFlightPackets := []
                   freeSendPackets := s.freeSendPackets ++ s.inFlightPackets.map OutgoingPacket.packet } r := by
  refine ⟨?_, h.payload, h.clean, h.data, h.quiet, fun p hp => h.service p ?_⟩
  · apply h.link.rearrange _ (fun p hp => needAck_handedOut hp) (fun p hp => Or.inl hp) (fun k hk => ⟨k, hk, rfl, rfl⟩)
    have hdata : s.inFlightPackets.filter OutgoingPacket.needAck =
        s.inFlightPackets.filter ((fun p => decide (p.packetType = .data)) ∘ OutgoingPacket.packet) := by
      apply List.filter_congr
      intro o ho
      rw [Bool.eq_iff_iff, h.needAck_iff (List.mem_append_right _ ho), Function.comp_apply, decide_eq_true_eq]
    apply List.perm_iff_count.mpr
    intro p
    simp only [Station.link, handedOut, List.flatten_singleton, List.filter_append, List.append_nil, List.map_append,
      List.count_append, map_packet_wrap, List.filter_map, hdata]
    omega
  · simp only [servicePackets, List.append_nil] at hp ⊢
    exact List.mem_append_left _ hp

lemma Sound.takePacketsToSend (h : s.Sound r) (size : ℕ) (hidle : s.inFlightPackets = []) :
    let taken := s.connection.takePacketsToSend size
    let sent := s.udpQueue.send taken.1
    let t := { s with connection := taken.2, udpQueue := sent.2, inFlightPackets := sent.1 }
    t.Sound r ∧ ∀ p ∈ t.servicePackets, p ∈ s.servicePackets ∨ p ∈ (s.link r).held := by
  intro taken sent t
  have hsend := s.udpQueue.send_perm taken.1
  have hpop := SendQueue.getPacketsToSend_perm { s.connection.sendQueue with serviceNeedToSend := [] } size
  have hdata : ∀ p ∈ (SendQueue.getPacketsToSend { s.connection.sendQueue with serviceNeedToSend := [] } size).1,
      p ∈ (s.link r).held :=
    fun p hp => Link.mem_held.mpr (Or.inl (hpop.mem_iff.mp (List.mem_append_left _ hp)))
  have hmem : ∀ p ∈ t.servicePackets, p ∈ s.servicePackets ∨ p ∈ (s.link r).held := by
    intro p hp
    have hp : p ∈ sent.2.held ++ sent.1 := hp
    rcases List.mem_append.mp (hsend.mem_iff.mp hp) with hp | hp
    · exact Or.inl (List.mem_append_left _ (List.mem_append_right _ hp))
    · rcases List.mem_append.mp hp with hp | hp
      · exact Or.inl (List.mem_append_left _ (List.mem_append_left _ hp))
      · exact Or.inr (hdata p hp)
  have hheld : (t.link r).held.Perm (s.link r).held := by
    have hfilter := hsend.filter OutgoingPacket.needAck
    have hservice : s.connection.sendQueue.serviceNeedToSend.filter OutgoingPacket.needAck = [] :=
      List.filter_eq_nil_iff.mpr fun p hp => by simp [h.quiet p hp]
    have huser := List.filter_eq_self (p := OutgoingPacket.needAck) |>.mpr fun p hp => h.link.needAck p (hdata p hp)
    apply List.perm_iff_count.mpr
    intro p
    have hf := hfilter.count_eq p
    have hp := hpop.count_eq p
    simp only [taken, Connection.takePacketsToSend, SendQueue.getServicePacketsToSend, List.filter_append,
      List.count_append, hservice, huser, List.count_nil] at hf hp
    simp only [Link.held, Station.link, handedOut, hidle, t, sent, taken, Connection.takePacketsToSend,
      SendQueue.getServicePacketsToSend, List.flatten_singleton, List.filter_append, List.count_append,
      List.filter_nil, List.count_nil] at hf ⊢
    omega
  refine ⟨⟨?_, h.payload, h.clean, h.data, ?_, fun p hp hack => ?_⟩, hmem⟩
  · refine h.link.move (t := t.link r) rfl rfl rfl rfl (fun p hp => ?_) ?_ (fun p hp => Or.inl hp) h.link.acks
    · exact h.link.needAck p (hheld.mem_iff.mp hp)
    · exact (hheld.map _).append_right _
  · exact fun p hp => by cases hp
  · rcases hmem p hp with hp | hp
    · exact h.service p hp hack
    · exact absurd (h.link.needAck p hp) (by simp [hack])

lemma Sound.idle (h : s.Sound r) {c : Connection} (hq : c.sendQueue = s.connection.sendQueue)
    (hf : c.inFlightQueue = s.connection.inFlightQueue) (hu : c.sendUserData = s.connection.sendUserData) :
    Sound { s with connection := c } r := by
  refine ⟨?_, ?_, ?_, h.data, ?_, ?_⟩
  · have hlink : Station.link { s with connection := c } r = s.link r := by
      simp only [Station.link, handedOut, hq, hf]
    exact hlink ▸ h.link
  · rw [hu]
    exact h.payload
  · rw [hu]
    exact h.clean
  · rw [hq]
    exact h.quiet
  · simp only [servicePackets, hq]
    exact h.service

lemma Sound.processAcks (h : s.Sound r) :
    Sound { s with connection := s.connection.processAcks
                   freed := s.freed ++ s.connection.inFlightQueue.processAcks.1 } r :=
  ⟨h.link.processAcks rfl, h.payload, h.clean, h.data, h.quiet, h.service⟩

lemma mem_servicePackets {t : Station} {extra : List OutgoingPacket} {p : OutgoingPacket} (hp : p ∈ t.servicePackets)
    (hu : t.udpQueue = s.udpQueue) (hf : t.inFlightPackets = s.inFlightPackets)
    (hq : t.connection.sendQueue.serviceNeedToSend = s.connection.sendQueue.serviceNeedToSend ++ extra) :
    p ∈ s.servicePackets ∨ p ∈ extra := by
  simp only [servicePackets, hu, hf, hq, List.mem_append] at hp ⊢
  tauto

lemma Sound.sendHandshake (h : s.Sound r) {packet : Packet → Packet} (next : ConnectionState)
    (hp : ∀ p, (packet p).packetType ≠ .data ∧ (packet p).packetType ≠ .sack) :
    Sound { s with connection := s.connection.sendHandshake packet next } r ∧
      ∀ p ∈ servicePackets { s with connection := s.connection.sendHandshake packet next },
        p.packet.packetType = .sack → p ∈ s.servicePackets := by
  rw [Connection.sendHandshake]
  split
  · exact ⟨h.idle rfl rfl rfl, fun p hp _ => hp⟩
  · rename_i free rest _
    obtain ⟨hdata, hsack⟩ := hp free
    have hmem : ∀ p ∈ servicePackets { s with connection := { (s.connection.sendServicePackets [packet free]) with
        freeInternalSendPackets := rest, connectionState := next } },
        p ∈ s.servicePackets ∨ p ∈ [⟨{ packet free with seqNumber := seqLimit - 1 }, false, 0⟩] :=
      fun p hp => mem_servicePackets hp rfl rfl rfl
    refine ⟨⟨h.link, h.payload, h.clean, h.data, ?_, ?_⟩, ?_⟩
    · intro p hp
      rcases List.mem_append.mp hp with hp | hp
      · exact h.quiet p hp
      · rw [List.mem_singleton.mp hp]
    · intro p hp hack
      rcases hmem p hp with hp | hp
      · exact h.service p hp hack
      · rw [List.mem_singleton.mp hp]
        exact hdata
    · intro p hp ht
      refine (hmem p hp).resolve_right fun hp => ?_
      rw [List.mem_singleton.mp hp] at ht
      exact hsack ht

def newSacks (c : Connection) : List OutgoingPacket :=
  (sackPackets c.route c.recvQueue.getLastAck c.freeInternalSendPackets c.recvQueue.getSelectiveAcks.1).1.map
    fun p => ⟨{ p with seqNumber := seqLimit - 1 }, false, 0⟩

lemma mem_newSacks {c : Connection} {p : OutgoingPacket} (hp : p ∈ newSacks c) :
    p.needAck = false ∧ p.packet.packetType = .sack ∧
      ∃ k ∈ (sackPackets c.route c.recvQueue.getLastAck c.freeInternalSendPackets c.recvQueue.getSelectiveAcks.1).1,
        p.packet.ackNumber = k.ackNumber ∧ p.packet.acks = k.acks := by
  obtain ⟨k, hk, rfl⟩ := List.mem_map.mp hp
  exact ⟨rfl, (sackPackets_spec hk).1, k, hk, rfl, rfl⟩

lemma sendData_sendQueue (c : Connection) (now timeout : ℕ) :
    (c.sendData now timeout).sendQueue.serviceNeedToSend = c.sendQueue.serviceNeedToSend ++ newSacks c ∧
      { (c.sendData now timeout).sendQueue with serviceNeedToSend := [] } =
        (SendQueue.reSendPackets { c.sendQueue with serviceNeedToSend := [] }
          (c.inFlightQueue.checkTimeouts now timeout).1).sendPackets
            (c.sendUserData.map (Connection.dataPacket c.route)) true := by
  simp only [Connection.sendData, SendQueue.sendPackets_false]
  exact SendQueue.sendPackets_true _ _ []

lemma Sound.sendData (h : s.Sound r) {now timeout : ℕ} (hlt : s.sent.length < seqLimit) :
    Sound { s with connection := s.connection.sendData now timeout
                   numbered := s.numbered ++ s.connection.sendUserData.map (Connection.dataPacket s.connection.route) }
      r := by
  obtain ⟨hservice, hqueue⟩ := sendData_sendQueue s.connection now timeout
  have hlength := congrArg List.length h.payload
  rw [List.length_map, List.length_map, List.length_append] at hlength
  have hpayload : (s.connection.sendUserData.map (Connection.dataPacket s.connection.route)).map Packet.payload =
      s.connection.sendUserData.map Packet.payload := by
    rw [List.map_map]
    rfl
  refine ⟨?_, ?_, ?_, ?_, ?_, ?_⟩
  · have hcheck := @Link.Inv.checkTimeouts _ _ h.link now timeout rfl
    have hsend := @Link.Inv.sendPackets _ _ hcheck
      (s.connection.sendUserData.map (Connection.dataPacket s.connection.route)) rfl (by
        simp only [Station.link, List.length_append, List.length_map]
        omega)
    simp only [Station.link] at hsend ⊢
    rw [hqueue]
    exact hsend
  · simp only [Connection.sendData, List.append_nil]
    rw [List.map_append, hpayload, ← List.map_append, h.payload]
  · intro p hp
    simp only [Connection.sendData, List.append_nil] at hp
    rcases List.mem_append.mp hp with hp | hp
    · exact h.clean p (List.mem_append_left _ hp)
    · obtain ⟨q, hq, rfl⟩ := List.mem_map.mp hp
      exact h.clean q (List.mem_append_right _ hq)
  · intro p hp
    rcases List.mem_append.mp hp with hp | hp
    · exact h.data p hp
    · obtain ⟨q, -, rfl⟩ := List.mem_map.mp hp
      rfl
  · intro p hp
    rcases List.mem_append.mp (hservice ▸ hp) with hp | hp
    · exact h.quiet p hp
    · exact (mem_newSacks hp).1
  · intro p hp hack
    rcases mem_servicePackets (s := s) hp rfl rfl hservice with hp | hp
    · exact h.service p hp hack
    · rw [(mem_newSacks hp).2.1]
      decide

lemma Sound.sendSacks (h' : r.Sound s) {now timeout : ℕ} {numbered : List Packet} :
    r.Sound { s with connection := s.connection.sendData now timeout, numbered := numbered } := by
  have hservice := (sendData_sendQueue s.connection now timeout).1
  refine ⟨?_, h'.payload, h'.clean, h'.data, h'.quiet, h'.service⟩
  have hsend := @Link.Inv.sendSacks _ _ h'.link s.connection.route s.connection.freeInternalSendPackets rfl
  apply hsend.rearrange (List.Perm.refl _) (fun p hp => needAck_handedOut hp) (fun p hp => Or.inl hp)
  intro k hk
  obtain ⟨hk, ht⟩ := List.mem_filter.mp hk
  have hold : k ∈ s.servicePackets.map OutgoingPacket.packet ++ r.inbox → k ∈ (r.link s).sacks := fun hmem =>
    List.mem_filter.mpr ⟨hmem, ht⟩
  rcases List.mem_append.mp hk with hk | hk
  · obtain ⟨p, hp, rfl⟩ := List.mem_map.mp hk
    rcases mem_servicePackets (s := s) hp rfl rfl hservice with hp | hp
    · exact ⟨p.packet, List.mem_append_left _ (hold (List.mem_append_left _ (List.mem_map_of_mem hp))), rfl, rfl⟩
    · obtain ⟨-, -, k, hk, hsame⟩ := mem_newSacks hp
      exact ⟨k, List.mem_append_right _ hk, hsame⟩
  · exact ⟨k, List.mem_append_left _ (hold (List.mem_append_right _ hk)), rfl, rfl⟩

lemma onTimeOut_queues {c c' : Connection} (h : c.onTimeOut = some c') :
    c'.sendQueue = c.sendQueue ∧ c'.inFlightQueue = c.inFlightQueue ∧ c'.sendUserData = c.sendUserData ∧
      c'.recvQueue = c.recvQueue := by
  rw [Connection.onTimeOut] at h
  split at h <;> cases h <;> exact ⟨rfl, rfl, rfl, rfl⟩

lemma Sound.sendPackets (h : s.Sound r) (h' : r.Sound s) {now timeout : ℕ} {c : Connection}
    (hlate : ¬ s.connection.Late now) (hc : s.connection.sendPackets now timeout = some c)
    (hlt : s.sent.length < seqLimit) :
    Sound { s with connection := c, numbered := s.numbered ++ s.connection.sendDataPackets now } r ∧
      r.Sound { s with connection := c, numbered := s.numbered ++ s.connection.sendDataPackets now } := by
  have hnone : s.connection.connectionState ≠ .dataState → s.connection.sendDataPackets now = [] := fun hs => by
    rw [Connection.sendDataPackets, if_neg fun hand => hs hand.2]
  have hsyn : ∀ packet : Packet → Packet, (∀ p, (packet p).packetType ≠ .data ∧ (packet p).packetType ≠ .sack) →
      ∀ next, s.connection.connectionState ≠ .dataState → c = s.connection.sendHandshake packet next →
        Sound { s with connection := c, numbered := s.numbered ++ s.connection.sendDataPackets now } r ∧
          r.Sound { s with connection := c, numbered := s.numbered ++ s.connection.sendDataPackets now } := by
    intro packet hp next hstate hc
    obtain ⟨hsound, hsacks⟩ := h.sendHandshake next hp
    have hrecv : (s.connection.sendHandshake packet next).recvQueue = s.connection.recvQueue := by
      rw [Connection.sendHandshake]
      split <;> rfl
    rw [hnone hstate, List.append_nil, hc]
    exact ⟨hsound, h'.reverse hrecv rfl rfl fun p hp ht => ⟨p, hsacks p hp ht, rfl⟩⟩
  rw [Connection.sendPackets] at hc
  split at hc
  · rename_i hstate
    exact hsyn _ (fun p => by simp [Connection.synPacket]) _ (by simp [hstate]) (Option.some.inj hc).symm
  · rename_i hstate
    exact hsyn _ (fun p => by simp [Connection.synAckPacket]) _ (by simp [hstate]) (Option.some.inj hc).symm
  · rename_i hstate
    cases hc
    rw [hnone (by simp [hstate]), List.append_nil]
    exact ⟨h, h'⟩
  · rename_i hstate
    cases hc
    rw [Connection.sendDataPackets, if_pos ⟨hlate, hstate⟩]
    exact ⟨h.sendData hlt, h'.sendSacks⟩
  · cases hc

lemma Sound.run (h : s.Sound r) (h' : r.Sound s) {now timeout : ℕ} {c : Connection}
    (hc : s.connection.run now timeout = some c) (hlt : s.sent.length < seqLimit) :
    let t := { s with connection := c
                      numbered := s.numbered ++ s.connection.sendDataPackets now
                      freed := s.freed ++ s.connection.addFreeUserSendPackets now timeout }
    t.Sound r ∧ r.Sound t := by
  rw [Connection.run_eq] at hc
  by_cases hlate : s.connection.Late now
  · rw [if_pos hlate] at hc
    obtain ⟨c', hc', rfl⟩ := Option.map_eq_some_iff.mp hc
    obtain ⟨hq, hf, hu, hr⟩ := onTimeOut_queues hc'
    rw [Connection.sendDataPackets, if_neg fun hand => hand.1 hlate, Connection.addFreeUserSendPackets, if_pos hlate,
      List.append_nil, List.append_nil]
    refine ⟨h.idle hq hf hu, h'.reverse hr rfl rfl fun p hp _ => ⟨p, ?_, rfl⟩⟩
    simpa only [servicePackets, hq] using hp
  · rw [if_neg hlate] at hc
    obtain ⟨c', hc', rfl⟩ := Option.map_eq_some_iff.mp hc
    obtain ⟨hs, hr⟩ := h.sendPackets h' hlate hc' hlt
    rw [Connection.addFreeUserSendPackets, if_neg hlate, hc', Option.map_some, Option.getD_some]
    exact ⟨hs.processAcks, hr.reverse rfl rfl rfl fun p hp _ => ⟨p, hp, rfl⟩⟩

lemma onRecvPackets_queues {c c' : Connection} {now : ℕ} {p : Packet} (h : c.onRecvPackets now p = some c') :
    c'.sendQueue = c.sendQueue ∧ c'.sendUserData = c.sendUserData ∧
      (c'.inFlightQueue = c.inFlightQueue ∨
        p.packetType = .sack ∧ c'.inFlightQueue = (c.inFlightQueue.setLastAck p.ackNumber).addAcks p.acks ∨
        p.packetType = .data ∧ c'.inFlightQueue = c.inFlightQueue.setLastAck p.ackNumber) ∧
      (c'.recvQueue = c.recvQueue ∨
        p.packetType = .data ∧ ∃ q, c.recvQueue.addPacket p = some q ∧ c'.recvQueue = q.2) := by
  simp only [Connection.onRecvPackets] at h
  split at h
  · obtain ⟨-, h⟩ := Option.ite_none_right_eq_some.mp h
    cases h
    exact ⟨rfl, rfl, Or.inl rfl, Or.inl rfl⟩
  · simp only [Connection.recvSynAck] at h
    split at h
    · cases h
      exact ⟨rfl, rfl, Or.inl rfl, Or.inl rfl⟩
    · rename_i ht
      obtain ⟨q, hq, rfl⟩ := Option.map_eq_some_iff.mp h
      exact ⟨rfl, rfl, Or.inl rfl, Or.inr ⟨ht, q, hq, rfl⟩⟩
    · cases h
  · obtain ⟨f, hf, h⟩ := Option.bind_eq_some_iff.mp h
    have hflight : f = c.inFlightQueue ∨
        p.packetType = .sack ∧ f = (c.inFlightQueue.setLastAck p.ackNumber).addAcks p.acks ∨
        p.packetType = .data ∧ f = c.inFlightQueue.setLastAck p.ackNumber := by
      rw [Connection.acceptAcks] at hf
      split at hf <;> cases hf <;> simp [*]
    split_ifs at h with ht
    · obtain ⟨q, hq, rfl⟩ := Option.map_eq_some_iff.mp h
      exact ⟨rfl, rfl, hflight, Or.inr ⟨ht, q, hq, rfl⟩⟩
    · cases h
      exact ⟨rfl, rfl, hflight, Or.inl rfl⟩
  · cases h

lemma Sound.inbox_data (h' : r.Sound s) {p : Packet} (hp : p ∈ s.inbox) (ht : p.packetType = .data) :
    p ∈ Link.stamp 0 r.numbered ∧ p.ackNumber = 0 := by
  have hmem := h'.link.wire p (List.mem_filter.mpr ⟨hp, decide_eq_true ht⟩)
  obtain ⟨q, hq, n, hn⟩ := Link.mem_stamp hmem
  refine ⟨hmem, ?_⟩
  rw [hn]
  exact h'.clean q (List.mem_append_left _ hq)

lemma Sound.onReceive (h : s.Sound r) (h' : r.Sound s) {now : ℕ} {p : Packet} {c : Connection} (hp : p ∈ s.inbox)
    (hc : s.connection.onRecvPackets now p = some c) :
    Sound { s with connection := c } r ∧ r.Sound { s with connection := c } := by
  obtain ⟨hq, hu, hf, hr⟩ := onRecvPackets_queues hc
  constructor
  · have hsame : c.inFlightQueue = s.connection.inFlightQueue → Sound { s with connection := c } r := fun hf =>
      h.idle hq hf hu
    rcases hf with hf | ⟨ht, hf⟩ | ⟨ht, hf⟩
    · exact hsame hf
    · have hmem : p ∈ (s.link r).sacks :=
        List.mem_filter.mpr ⟨List.mem_append_right _ hp, decide_eq_true ht⟩
      obtain ⟨i, hi⟩ := List.mem_iff_getElem?.mp hmem
      have hlast := h.link.setLastAck (i := i) (by rw [Link.step, hi]; rfl)
      have hacks := hlast.addAcks (i := i) (by rw [Link.step, hi]; rfl)
      have hidle := h.idle (c := { c with inFlightQueue := s.connection.inFlightQueue }) hq rfl hu
      refine ⟨?_, hidle.payload, hidle.clean, hidle.data, hidle.quiet, hidle.service⟩
      simp only [Station.link, handedOut, hq, hf] at hacks ⊢
      exact hacks
    · rw [(h'.inbox_data hp ht).2, InFlightQueue.setLastAck, Nat.max_zero] at hf
      exact hsame hf
  · have hsound : ∀ q, c.recvQueue = q → Link.Inv { r.link s with recvQueue := q } →
        r.Sound { s with connection := c } := by
      intro q hrecv hlink
      refine ⟨?_, h'.payload, h'.clean, h'.data, h'.quiet, h'.service⟩
      simp only [Station.link, servicePackets, hq, hrecv] at hlink ⊢
      exact hlink
    rcases hr with hr | ⟨ht, q, hadd, hr⟩
    · exact hsound _ hr h'.link
    · exact hsound _ hr (h'.link.addPacket (h'.inbox_data hp ht).1 hadd)

lemma Sound.processRecvPackets (h : s.Sound r) (h' : r.Sound s) {c : Connection}
    (hc : s.connection.processRecvPackets = some c) :
    Sound { s with connection := c } r ∧ r.Sound { s with connection := c } := by
  rw [Connection.processRecvPackets] at hc
  split_ifs at hc
  · cases hc
    exact ⟨h, h'⟩
  · obtain ⟨q, hq, rfl⟩ := Option.map_eq_some_iff.mp hc
    refine ⟨h.idle rfl rfl rfl, ⟨?_, h'.payload, h'.clean, h'.data, h'.quiet, h'.service⟩⟩
    exact RecvQueue.proccessLoop_induction (P := fun q => Link.Inv { r.link s with recvQueue := q })
      (fun q p hinv hp _ => hinv.takeNext hp) h'.link hq

lemma sampled_getAllPackets (q : InFlightQueue) : q.getAllPackets.2.sampled = [] := by
  simp [InFlightQueue.getAllPackets, InFlightQueue.sampled, List.flatMap_map]

lemma Sound.getAllPackets (h : s.Sound r) :
    Sound { s with
      connection := { s.connection with inFlightQueue := s.connection.inFlightQueue.getAllPackets.2 }
      cleanSendBuffers := true
      freeSendPackets := s.freeSendPackets ++ s.connection.inFlightQueue.getAllPackets.1 } r := by
  refine ⟨?_, h.payload, h.clean, h.data, h.quiet, h.service⟩
  have hall : (s.connection.inFlightQueue.sampled.map OutgoingPacket.packet).filter (fun p => p.packetType = .data) =
      s.connection.inFlightQueue.sampled.map OutgoingPacket.packet := by
    apply List.filter_eq_self.mpr
    intro p hp
    obtain ⟨o, ho, rfl⟩ := List.mem_map.mp hp
    exact decide_eq_true (h.held_data (Link.mem_held.mpr (Or.inr (Or.inr ho))))
  refine h.link.move rfl rfl rfl rfl (fun p hp => ?_) ?_ (fun p hp => Or.inl hp)
    { h.link.acks with receivedAcks := h.link.acks.receivedAcks }
  · rcases Link.mem_held.mp hp with hp | hp | hp
    · exact h.link.needAck p (Link.mem_held.mpr (Or.inl hp))
    · exact needAck_handedOut hp
    · simp only [Station.link, sampled_getAllPackets] at hp
      cases hp
  · apply List.perm_iff_count.mpr
    intro p
    simp only [Link.held, Station.link, handedOut, sampled_getAllPackets, List.flatten_singleton, List.map_append,
      List.filter_append, map_packet_wrap, List.count_append, List.map_nil, List.count_nil]
    simp only [InFlightQueue.getAllPackets, hall]
    omega

lemma step_sent {t : Station} {packets : List Packet} {a : Action} (h : s.step a = some (t, packets)) :
    t.sent = s.sent ++ a.data := by
  cases a with
  | send data =>
    cases h
    rfl
  | getOutgoingPacketsToSend thread size =>
    obtain ⟨_, -, heq⟩ := Option.map_eq_some_iff.mp h
    cases heq
    exact (List.append_nil _).symm
  | sendMsg thread clock =>
    obtain ⟨_, -, heq⟩ := Option.map_eq_some_iff.mp h
    cases heq
    exact (List.append_nil _).symm
  | giveBack thread =>
    obtain ⟨_, -, heq⟩ := Option.map_eq_some_iff.mp h
    cases heq
    exact (List.append_nil _).symm
  | run now timeout =>
    obtain ⟨_, -, heq⟩ := Option.map_eq_some_iff.mp (Option.ite_none_left_eq_some.mp h).2
    cases heq
    exact (List.append_nil _).symm
  | processRecvPackets =>
    obtain ⟨_, -, heq⟩ := Option.map_eq_some_iff.mp (Option.ite_none_left_eq_some.mp h).2
    cases heq
    exact (List.append_nil _).symm
  | onReceive copy now =>
    obtain ⟨_, -, h⟩ := Option.bind_eq_some_iff.mp (Option.ite_none_left_eq_some.mp h).2
    obtain ⟨_, -, heq⟩ := Option.map_eq_some_iff.mp h
    cases heq
    exact (List.append_nil _).symm
  | processSentPackets =>
    rw [step] at h
    split_ifs at h <;> cases h <;> exact (List.append_nil _).symm
  | sendQueueStep size =>
    cases (Option.ite_none_right_eq_some.mp h).2
    exact (List.append_nil _).symm
  | removeSendClosedConnection =>
    cases (Option.ite_none_right_eq_some.mp h).2
    exact (List.append_nil _).symm
  | removeRecvClosedConnection =>
    cases (Option.ite_none_right_eq_some.mp h).2
    exact (List.append_nil _).symm
  | _ =>
    cases h
    exact (List.append_nil _).symm

/-- Where a packet of the user can be once it has a number. -/
def places (s : Station) (p : Packet) : ℕ :=
  (s.connection.sendQueue.resendPackets.map OutgoingPacket.packet).count p +
    (s.connection.sendQueue.needToSend.map OutgoingPacket.packet).count p +
    ((s.udpQueue.held ++ s.inFlightPackets).map OutgoingPacket.packet).count p +
    (s.connection.inFlightQueue.sampled.map OutgoingPacket.packet).count p + s.freeSendPackets.count p

lemma count_map_filter {l : List OutgoingPacket} {p : Packet} {f : OutgoingPacket → Bool}
    (h : ∀ o ∈ l, o.packet = p → f o = true) :
    ((l.filter f).map OutgoingPacket.packet).count p = (l.map OutgoingPacket.packet).count p := by
  induction l with
  | nil => rfl
  | cons o l ih =>
    have hrest := ih fun o' ho' => h o' (List.mem_cons_of_mem o ho')
    rw [List.filter_cons]
    split_ifs with hf
    · rw [List.map_cons, List.map_cons, List.count_cons, List.count_cons, hrest]
    · have hne : o.packet ≠ p := fun heq => hf (h o List.mem_cons_self heq)
      rw [List.map_cons, List.count_cons_of_ne hne, hrest]

lemma Sound.places_eq (h : s.Sound r) {p : Packet} (hp : p ∈ Link.stamp 0 s.numbered) :
    s.places p + s.freed.count p = 1 := by
  have hone : (Link.stamp 0 s.numbered).count p = 1 :=
    List.count_eq_one_of_mem (Link.seqNumber_stamp_nodup 0 s.numbered).of_map hp
  obtain ⟨q, hq, n, hn⟩ := Link.mem_stamp hp
  have hdata : p.packetType = .data := by
    rw [hn]
    exact h.data q hq
  have hout := count_map_filter (l := s.udpQueue.held ++ s.inFlightPackets) (p := p) (f := OutgoingPacket.needAck)
    fun o ho heq => (h.needAck_iff ho).mpr (heq ▸ hdata)
  have hfree : (s.freeSendPackets.filter fun p => p.packetType = .data).count p = s.freeSendPackets.count p :=
    List.count_filter (decide_eq_true hdata)
  have hkept := h.link.kept.count_eq p
  simp only [Link.held, Station.link, handedOut, List.flatten_singleton, List.map_append, map_packet_wrap,
    List.count_append, hfree] at hkept hout
  rw [hone] at hkept
  simp only [places, List.map_append, List.count_append] at hout ⊢
  omega

lemma deliver_nil (r : Station) : r.deliver [] = r := by
  rw [deliver, List.append_nil]

lemma sound_step {t : Station} {packets : List Packet} {a : Action} (h : s.Sound r) (h' : r.Sound s)
    (hclean : ∀ p ∈ a.data, p.ackNumber = 0) (hlt : s.sent.length < seqLimit)
    (hstep : s.step a = some (t, packets)) : t.Sound (r.deliver packets) ∧ (r.deliver packets).Sound t := by
  cases a with
  | send data =>
    cases hstep
    rw [deliver_nil]
    exact ⟨h.send hclean, h'.reverse rfl rfl rfl fun p hp _ => ⟨p, hp, rfl⟩⟩
  | run now timeout =>
    obtain ⟨-, hstep⟩ := Option.ite_none_left_eq_some.mp hstep
    obtain ⟨c, hc, heq⟩ := Option.map_eq_some_iff.mp hstep
    cases heq
    rw [deliver_nil]
    exact h.run h' hc hlt
  | sendQueueStep size =>
    obtain ⟨hidle, hstep⟩ := Option.ite_none_right_eq_some.mp hstep
    cases hstep
    rw [deliver_nil]
    split_ifs
    · rw [← deliver_nil r]
      apply h.shift h' _ (by simp)
      have hsend := (s.udpQueue.send_perm []).map OutgoingPacket.untimed
      rw [hidle]
      exact hsend
    · obtain ⟨hsound, hmem⟩ := h.takePacketsToSend size hidle
      refine ⟨hsound, h'.reverse rfl rfl rfl fun p hp ht => ?_⟩
      refine ⟨p, (hmem p hp).resolve_right fun hp => ?_, rfl⟩
      rw [h.held_data hp] at ht
      cases ht
  | processSentPackets =>
    have hmem : ∀ (c : Connection) (free : List Packet), c.sendQueue = s.connection.sendQueue →
        ∀ p ∈ servicePackets { s with inFlightPackets := [], connection := c, freeSendPackets := free },
          p ∈ s.servicePackets := by
      intro c free hq p hp
      simp only [servicePackets, hq, List.append_nil] at hp
      exact List.mem_append_left _ hp
    rw [step] at hstep
    split_ifs at hstep
    · cases hstep
      rw [deliver_nil]
      exact ⟨h.dropSentPackets, h'.reverse rfl rfl rfl fun p hp _ => ⟨p, hmem s.connection _ rfl p hp, rfl⟩⟩
    · cases hstep
      rw [deliver_nil]
      exact ⟨h.processSentPackets, h'.reverse rfl rfl rfl fun p hp _ =>
        ⟨p, hmem (s.connection.processSentPackets s.inFlightPackets) s.freeSendPackets rfl p hp, rfl⟩⟩
  | getOutgoingPacketsToSend thread size =>
    obtain ⟨u, hu, heq⟩ := Option.map_eq_some_iff.mp hstep
    cases heq
    apply h.shift h' _ (by simp)
    rw [List.map_append, List.map_append]
    exact (UDPQueue.getOutgoingPacketsToSend_perm hu).append_right _
  | sendMsg thread clock =>
    obtain ⟨⟨packets', u⟩, hu, heq⟩ := Option.map_eq_some_iff.mp hstep
    cases heq
    obtain ⟨hperm, hout⟩ := UDPQueue.sendMsg_spec hu
    apply h.shift h' _ hout
    rw [List.map_append, List.map_append]
    exact hperm.append_right _
  | giveBack thread =>
    obtain ⟨u, hu, heq⟩ := Option.map_eq_some_iff.mp hstep
    cases heq
    apply h.shift h' _ (by simp)
    rw [List.map_append, List.map_append]
    exact (UDPQueue.giveBack_perm hu).append_right _
  | onReceive copy now =>
    obtain ⟨-, hstep⟩ := Option.ite_none_left_eq_some.mp hstep
    obtain ⟨p, hp, hstep⟩ := Option.bind_eq_some_iff.mp hstep
    obtain ⟨c, hc, heq⟩ := Option.map_eq_some_iff.mp hstep
    cases heq
    rw [deliver_nil]
    exact h.onReceive h' (List.mem_of_getElem? hp) hc
  | processRecvPackets =>
    obtain ⟨-, hstep⟩ := Option.ite_none_left_eq_some.mp hstep
    obtain ⟨c, hc, heq⟩ := Option.map_eq_some_iff.mp hstep
    cases heq
    rw [deliver_nil]
    exact h.processRecvPackets h' hc
  | recv =>
    cases hstep
    rw [deliver_nil]
    exact ⟨⟨h.link, h.payload, h.clean, h.data, h.quiet, h.service⟩,
      ⟨h'.link.recv rfl, h'.payload, h'.clean, h'.data, h'.quiet, h'.service⟩⟩
  | recvSized size =>
    cases hstep
    rw [deliver_nil]
    exact ⟨⟨h.link, h.payload, h.clean, h.data, h.quiet, h.service⟩,
      ⟨h'.link.recvSized size, h'.payload, h'.clean, h'.data, h'.quiet, h'.service⟩⟩
  | close =>
    cases hstep
    rw [deliver_nil]
    exact ⟨h.idle rfl rfl rfl, h'.reverse rfl rfl rfl fun p hp _ => ⟨p, hp, rfl⟩⟩
  | removeSendClosedConnection =>
    obtain ⟨-, hstep⟩ := Option.ite_none_right_eq_some.mp hstep
    cases hstep
    rw [deliver_nil]
    exact ⟨h.getAllPackets, h'.reverse rfl rfl rfl fun p hp _ => ⟨p, hp, rfl⟩⟩
  | removeRecvClosedConnection =>
    obtain ⟨-, hstep⟩ := Option.ite_none_right_eq_some.mp hstep
    cases hstep
    rw [deliver_nil]
    exact ⟨⟨h.link, h.payload, h.clean, h.data, h.quiet, h.service⟩,
      h'.reverse rfl rfl rfl fun p hp _ => ⟨p, hp, rfl⟩⟩

end Station

end FastTransport.Protocol
