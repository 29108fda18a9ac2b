import FastTransport.Protocol.Connection

/-! What becomes of the selective acknowledgements that `DataState::SendPackets` takes from the receive queue. -/

namespace FastTransport.Protocol

lemma fillAcks_eq (lastAck room : ℕ) (acks : List ℕ) :
    (fillAcks lastAck room acks).1 = (acks.filter (lastAck ≤ ·)).take room ∧
      (fillAcks lastAck room acks).2.filter (lastAck ≤ ·) = (acks.filter (lastAck ≤ ·)).drop room := by
  induction acks generalizing room with
  | nil => cases room <;> exact ⟨rfl, rfl⟩
  | cons ack acks ih =>
    cases room with
    | zero => exact ⟨rfl, rfl⟩
    | succ room =>
      by_cases hack : lastAck ≤ ack
      · obtain ⟨htake, hdrop⟩ := ih room
        simp only [fillAcks, List.filter_cons, decide_true, hack, if_true, List.take_succ_cons,
          List.drop_succ_cons]
        exact ⟨congrArg (ack :: ·) htake, hdrop⟩
      · simpa [fillAcks, hack] using ih (room + 1)

lemma sackPackets_acks (route : Route) (lastAck : ℕ) (free : List Packet) (acks : List ℕ) :
    (sackPackets route lastAck free acks).1.flatMap Packet.acks =
      (acks.filter (lastAck ≤ ·)).take (free.length * maxAcksSize) := by
  induction free generalizing acks with
  | nil => cases acks <;> simp [sackPackets]
  | cons packet free ih =>
    cases acks with
    | nil => simp [sackPackets]
    | cons ack acks =>
      obtain ⟨htake, hdrop⟩ := fillAcks_eq lastAck maxAcksSize (ack :: acks)
      have hrest := ih (fillAcks lastAck maxAcksSize (ack :: acks)).2
      have hlength : (packet :: free).length * maxAcksSize = maxAcksSize + free.length * maxAcksSize := by
        simp only [List.length_cons]
        ring
      rw [sackPackets, List.flatMap_cons, hrest, hdrop, hlength, List.take_add]
      exact congrArg (· ++ _) htake

namespace SendQueue

lemma sendPackets_service (packets : List Packet) (q : SendQueue) :
    (q.sendPackets packets false).serviceNeedToSend =
      q.serviceNeedToSend ++ packets.map fun p => ⟨{ p with seqNumber := seqLimit - 1 }, false, 0⟩ := by
  induction packets generalizing q with
  | nil => simp [sendPackets]
  | cons p packets ih =>
    have hstep := ih (sendPacket false q p)
    simp only [sendPacket, sendPackets] at hstep
    simpa [sendPackets, sendPacket] using hstep

lemma sendPackets_data (packets : List Packet) (q : SendQueue) :
    (q.sendPackets packets true).serviceNeedToSend = q.serviceNeedToSend := by
  induction packets generalizing q with
  | nil => rfl
  | cons p packets ih => exact ih (sendPacket true q p)

end SendQueue

namespace Connection

def emitted (c c' : Connection) : List Packet :=
  (c'.sendQueue.serviceNeedToSend.drop c.sendQueue.serviceNeedToSend.length).map OutgoingPacket.packet

def AckKept (c c' : Connection) (n : ℕ) : Prop :=
  (∃ p ∈ c.emitted c', p.packetType = .sack ∧ n ∈ p.acks) ∨ n < c.recvQueue.getLastAck ∨
    n ∈ c'.recvQueue.selectiveAcks

def uncoveredAcks (c : Connection) : List ℕ :=
  c.recvQueue.selectiveAcks.filter (c.recvQueue.getLastAck ≤ ·)

lemma emitted_sendData (c : Connection) (now timeout : ℕ) :
    c.emitted (c.sendData now timeout) =
      (sackPackets c.route c.recvQueue.getLastAck c.freeInternalSendPackets c.recvQueue.selectiveAcks).1.map
        fun p => { p with seqNumber := seqLimit - 1 } := by
  have hservice : (c.sendData now timeout).sendQueue.serviceNeedToSend =
      (c.sendQueue.sendPackets (sackPackets c.route c.recvQueue.getLastAck c.freeInternalSendPackets
        c.recvQueue.selectiveAcks).1 false).serviceNeedToSend :=
    SendQueue.sendPackets_data _ _
  rw [emitted, hservice, SendQueue.sendPackets_service, List.drop_left, List.map_map]
  rfl

lemma sack_mem_iff (c : Connection) (now timeout n : ℕ) :
    (∃ p ∈ c.emitted (c.sendData now timeout), p.packetType = .sack ∧ n ∈ p.acks) ↔
      n ∈ c.uncoveredAcks.take (c.freeInternalSendPackets.length * maxAcksSize) := by
  rw [uncoveredAcks, ← sackPackets_acks c.route, emitted_sendData, List.mem_flatMap]
  constructor
  · rintro ⟨p, hp, -, hn⟩
    obtain ⟨k, hk, rfl⟩ := List.mem_map.mp hp
    exact ⟨k, hk, hn⟩
  · rintro ⟨k, hk, hn⟩
    exact ⟨_, List.mem_map_of_mem hk, (sackPackets_spec hk).1, hn⟩

theorem selective_acks_kept_iff (c : Connection) (now timeout : ℕ) :
    (∀ n ∈ c.recvQueue.getSelectiveAcks.1, c.AckKept (c.sendData now timeout) n) ↔
      ∀ n ∈ c.uncoveredAcks, n ∈ c.uncoveredAcks.take (c.freeInternalSendPackets.length * maxAcksSize) := by
  have hdrained : (c.sendData now timeout).recvQueue.selectiveAcks = [] := rfl
  simp only [AckKept, sack_mem_iff, hdrained, List.not_mem_nil, or_false]
  constructor
  · intro h n hn
    obtain ⟨hmem, hle⟩ := List.mem_filter.mp hn
    exact (h n hmem).resolve_right (by simpa using hle)
  · intro h n hn
    by_cases hlt : n < c.recvQueue.getLastAck
    · exact Or.inr hlt
    · exact Or.inl (h n (List.mem_filter.mpr ⟨hn, by simpa using hlt⟩))

theorem selective_ack_dropped : ¬ ∀ (c : Connection) (now timeout : ℕ),
    ∀ n ∈ c.recvQueue.getSelectiveAcks.1, c.AckKept (c.sendData now timeout) n := by
  intro h
  have hkept := (selective_acks_kept_iff { Connection.create .dataState ⟨1, 1⟩ 0 [] with
    recvQueue := { RecvQueue.create with selectiveAcks := [5] } } 0 0).mp (h _ 0 0)
  exact absurd (hkept 5 (by decide)) (by decide)

end Connection

end FastTransport.Protocol
