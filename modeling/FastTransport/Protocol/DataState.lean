import FastTransport.Lib.Runs
import FastTransport.Protocol.Connection

/-! A connection in `DataState`, the packets it emits, and the part of its peer that acts on
their acknowledgement numbers. -/

namespace FastTransport.Protocol

open Lib.Runs

structure Emitted where
  packet : Packet
  lastAck : ℕ
  deriving DecidableEq, Repr

structure DataState where
  connection : Connection
  handedOut : List (List OutgoingPacket)
  emitted : List Emitted
  peer : InFlightQueue

namespace DataState

def create (key : ConnectionKey) (destinationID : ℕ) (free : List Packet) : DataState :=
  ⟨{ Connection.create .dataState key 0 free with destinationID := destinationID, connected := true }, [], [],
    InFlightQueue.create⟩

inductive Action
  | send (data : List Packet)
  | sendPackets (now timeout : ℕ)
  | processAcks
  | getPacketsToSend (size now : ℕ)
  | processSentPackets (batch : ℕ)
  | onRecvPackets (packet : Packet)
  | processRecvPackets
  | recv
  | peerReceives (i : ℕ)

def step (s : DataState) : Action → Option DataState
  | .send data => some { s with connection := s.connection.send data }
  | .sendPackets now timeout => some { s with connection := s.connection.sendData now timeout }
  | .processAcks => some { s with connection := s.connection.processAcks }
  | .getPacketsToSend size now =>
    let r := s.connection.getPacketsToSend size now
    some { s with connection := r.2
                  handedOut := s.handedOut ++ [r.1]
                  emitted := s.emitted ++
                    r.1.map fun p => ⟨p.packet, s.connection.recvQueue.getLastAck⟩ }
  | .processSentPackets i =>
    (s.handedOut[i]?).map fun batch =>
      { s with handedOut := s.handedOut.eraseIdx i, connection := s.connection.processSentPackets batch }
  | .onRecvPackets packet => (s.connection.recvData packet).map fun c => { s with connection := c }
  | .processRecvPackets => s.connection.processRecvPackets.map fun c => { s with connection := c }
  | .recv => some { s with connection := s.connection.recv.2 }
  | .peerReceives i =>
    (s.emitted[i]?).bind fun e => (Connection.acceptAcks s.peer e.packet).map fun f => { s with peer := f }

def HonestHeaders (s : DataState) : Action → Prop
  | .sendPackets _ _ => ∀ p ∈ s.connection.sendUserData, p.ackNumber ≤ s.connection.recvQueue.getLastAck
  | _ => True

structure Sound (q : RecvQueue) (p : Packet) : Prop where
  ackNumber : p.ackNumber ≤ q.getLastAck
  acks : p.packetType = .sack → ∀ n ∈ p.acks, q.Received n

structure SoundWith (s : DataState) (q : RecvQueue) : Prop where
  queue : q.Inv
  selectiveAcks : ∀ n ∈ q.selectiveAcks, q.Received n
  outgoing : ∀ p ∈ s.connection.outgoing, Sound q p.packet
  handedOut : ∀ p ∈ s.handedOut.flatten, Sound q p.packet
  emitted : ∀ e ∈ s.emitted, Sound q e.packet ∧ e.packet.ackNumber ≤ e.lastAck
  peerLastAck : s.peer.lastAckNumber ≤ q.getLastAck
  peerAcks : ∀ n ∈ s.peer.receivedAcks, q.Received n

def Inv (s : DataState) : Prop := s.SoundWith s.connection.recvQueue

lemma inv_create (key : ConnectionKey) (destinationID : ℕ) (free : List Packet) :
    (create key destinationID free).Inv :=
  ⟨RecvQueue.inv_create, by simp [create, Connection.create, RecvQueue.create],
    by simp [create, Connection.create, Connection.outgoing, SendQueue.create, SendQueue.queued,
      InFlightQueue.create, InFlightQueue.sampled],
    by simp [create], by simp [create], le_rfl, by simp [create, InFlightQueue.create]⟩

lemma Sound.mono {q q' : RecvQueue} {p : Packet} (h : Sound q p) (hr : ∀ n, q.Received n → q'.Received n)
    (hl : q.getLastAck ≤ q'.getLastAck) : Sound q' p :=
  ⟨h.ackNumber.trans hl, fun ht n hn => hr n (h.acks ht n hn)⟩

lemma SoundWith.mono {s : DataState} {q q' : RecvQueue} (hs : s.SoundWith q) (hq : q'.Inv)
    (hr : ∀ n, q.Received n → q'.Received n) (hl : q.getLastAck ≤ q'.getLastAck)
    (ha : ∀ n ∈ q'.selectiveAcks, q'.Received n) : s.SoundWith q' :=
  ⟨hq, ha, fun p hp => (hs.outgoing p hp).mono hr hl, fun p hp => (hs.handedOut p hp).mono hr hl,
    fun e he => ⟨(hs.emitted e he).1.mono hr hl, (hs.emitted e he).2⟩,
    hs.peerLastAck.trans hl, fun n hn => hr n (hs.peerAcks n hn)⟩

lemma SoundWith.takeNext {s : DataState} {q : RecvQueue} (hs : s.SoundWith q) {p : Packet}
    (hp : q.queue (q.beginFullRecievedAck % RecvQueue.queueSize) = some p) : s.SoundWith (q.takeNext p) := by
  have hr := fun n hn => RecvQueue.takeNext_received hs.queue hp (n := n) hn
  refine hs.mono (RecvQueue.takeNext_inv hs.queue p) hr ?_ fun n hn => hr n (hs.selectiveAcks n hn)
  simp only [RecvQueue.getLastAck, RecvQueue.takeNext]
  omega

lemma SoundWith.addPacket {s : DataState} {q : RecvQueue} (hs : s.SoundWith q) {p : Packet}
    {r : (RecvQueueStatus × Option Packet) × RecvQueue} (h : q.addPacket p = some r) : s.SoundWith r.2 := by
  refine hs.mono (RecvQueue.addPacket_inv hs.queue h) (fun n hn => RecvQueue.addPacket_received h hn) ?_
    (RecvQueue.addPacket_selectiveAcks hs.queue hs.selectiveAcks h)
  rcases RecvQueue.addPacket_cases (r := r.1) h with he | ⟨he, _⟩ | ⟨he, _⟩ <;> rw [he] <;> exact le_rfl

lemma Inv.sendPackets {s : DataState} (hs : s.Inv) {now timeout : ℕ}
    (hok : ∀ p ∈ s.connection.sendUserData, p.ackNumber ≤ s.connection.recvQueue.getLastAck) :
    Inv { s with connection := s.connection.sendData now timeout } := by
  have hq := hs.queue
  have hs' : s.SoundWith s.connection.recvQueue.getSelectiveAcks.2 :=
    SoundWith.mono hs ⟨hq.begin_pos, hq.slot⟩ (fun n hn => hn) le_rfl (by simp [RecvQueue.getSelectiveAcks])
  refine ⟨hs'.queue, hs'.selectiveAcks, fun p hp => ?_, hs'.handedOut, hs'.emitted, hs'.peerLastAck,
    hs'.peerAcks⟩
  rcases Connection.sendData_outgoing_mem hp with hp | ⟨k, hk, n, hn⟩ | ⟨d, hd, n, hn⟩
  · exact hs'.outgoing p hp
  · obtain ⟨_, hl, hacks⟩ := sackPackets_spec hk
    rw [hn]
    exact ⟨hl.le, fun _ m hm => hs.selectiveAcks m (hacks m hm)⟩
  · rw [hn]
    exact ⟨hok d hd, fun ht => by cases ht⟩

lemma Inv.getPacketsToSend {s t : DataState} (hs : s.Inv) {size now : ℕ}
    (h : s.step (.getPacketsToSend size now) = some t) : t.Inv := by
  cases h
  have hbatch : ∀ p ∈ (s.connection.getPacketsToSend size now).1, Sound s.connection.recvQueue p.packet := by
    intro p hp
    obtain ⟨o, ho, heq⟩ := Connection.getPacketsToSend_fst_mem hp
    exact heq ▸ hs.outgoing o ho
  refine ⟨hs.queue, hs.selectiveAcks,
    fun p hp => hs.outgoing p (Connection.getPacketsToSend_snd_mem now hp), fun p hp => ?_, fun e he => ?_,
    hs.peerLastAck, hs.peerAcks⟩
  · rw [List.flatten_append, List.mem_append] at hp
    rcases hp with hp | hp
    · exact hs.handedOut p hp
    · simp only [List.flatten_cons, List.flatten_nil, List.append_nil] at hp
      exact hbatch p hp
  · rcases List.mem_append.mp he with he | he
    · exact hs.emitted e he
    · obtain ⟨o, ho, rfl⟩ := List.mem_map.mp he
      exact ⟨hbatch o ho, (hbatch o ho).ackNumber⟩

lemma Inv.processSentPackets {s t : DataState} (hs : s.Inv) {i : ℕ}
    (h : s.step (.processSentPackets i) = some t) : t.Inv := by
  obtain ⟨batch, hb, rfl⟩ := Option.map_eq_some_iff.mp h
  refine ⟨hs.queue, hs.selectiveAcks, fun p hp => ?_, fun p hp => ?_, hs.emitted, hs.peerLastAck,
    hs.peerAcks⟩
  · rcases Connection.processSentPackets_mem hp with hp | hp
    · exact hs.outgoing p hp
    · exact hs.handedOut p (List.mem_flatten.mpr ⟨batch, List.mem_of_getElem? hb, hp⟩)
  · obtain ⟨l, hl, hp⟩ := List.mem_flatten.mp hp
    exact hs.handedOut p (List.mem_flatten.mpr ⟨l, List.mem_of_mem_eraseIdx hl, hp⟩)

lemma Inv.onRecvPackets {s t : DataState} (hs : s.Inv) {p : Packet}
    (h : s.step (.onRecvPackets p) = some t) : t.Inv := by
  obtain ⟨c, hc, rfl⟩ := Option.map_eq_some_iff.mp h
  obtain ⟨f, hf, hc⟩ := Option.bind_eq_some_iff.mp hc
  have hs' : Inv { s with connection := { s.connection with inFlightQueue := f } } := by
    refine { hs with outgoing := fun p hp => hs.outgoing p ?_ }
    rw [Connection.outgoing, (Connection.acceptAcks_spec hf).1] at hp
    exact hp
  split_ifs at hc
  · obtain ⟨r, hr, rfl⟩ := Option.map_eq_some_iff.mp hc
    exact { SoundWith.addPacket hs' hr with }
  · cases hc
    exact hs'

lemma Inv.processRecvPackets {s t : DataState} (hs : s.Inv) (h : s.step .processRecvPackets = some t) :
    t.Inv := by
  obtain ⟨c, hc, rfl⟩ := Option.map_eq_some_iff.mp h
  rw [Connection.processRecvPackets] at hc
  split_ifs at hc
  · cases hc
    exact hs
  · obtain ⟨q, hq, rfl⟩ := Option.map_eq_some_iff.mp hc
    have hsound : s.SoundWith q :=
      RecvQueue.proccessLoop_induction (fun q p hinv hp _ => SoundWith.takeNext hinv hp) hs hq
    exact { hsound with }

lemma Inv.peerReceives {s t : DataState} (hs : s.Inv) {i : ℕ} (h : s.step (.peerReceives i) = some t) :
    t.Inv := by
  obtain ⟨e, he, h⟩ := Option.bind_eq_some_iff.mp h
  obtain ⟨f, hf, rfl⟩ := Option.map_eq_some_iff.mp h
  obtain ⟨hsound, _⟩ := hs.emitted e (List.mem_of_getElem? he)
  obtain ⟨_, hlast, hacks⟩ := Connection.acceptAcks_spec hf
  refine { hs with peerLastAck := hlast.trans (max_le hs.peerLastAck hsound.ackNumber)
                   peerAcks := fun n hn => ?_ }
  rcases hacks n hn with hn | ⟨ht, hn⟩
  · exact hs.peerAcks n hn
  · exact hsound.acks ht n hn

lemma inv_step (s : DataState) (a : Action) (t : DataState) (hs : s.Inv) (hok : s.HonestHeaders a)
    (h : s.step a = some t) : t.Inv := by
  cases a with
  | send data =>
    cases h
    exact { hs with }
  | sendPackets now timeout =>
    cases h
    exact hs.sendPackets hok
  | processAcks =>
    cases h
    exact { hs with outgoing := fun p hp => hs.outgoing p (Connection.processAcks_mem hp) }
  | getPacketsToSend size now => exact hs.getPacketsToSend h
  | processSentPackets i => exact hs.processSentPackets h
  | onRecvPackets packet => exact hs.onRecvPackets h
  | processRecvPackets => exact hs.processRecvPackets h
  | recv =>
    cases h
    have hq := hs.queue
    have hsound : s.SoundWith s.connection.recvQueue.recvUserData.2 :=
      SoundWith.mono hs ⟨hq.begin_pos, hq.slot⟩ (fun n hn => hn) le_rfl hs.selectiveAcks
    exact { hsound with }
  | peerReceives i => exact hs.peerReceives h

theorem emitted_ack_le_lastAck {key : ConnectionKey} {destinationID : ℕ} {free : List Packet}
    {s : DataState} {as : List Action} (h : Path step HonestHeaders (create key destinationID free) as s) :
    (∀ e ∈ s.emitted, e.packet.ackNumber ≤ e.lastAck) ∧
      ∀ n, n ≤ s.peer.lastAckNumber ∨ n ∈ s.peer.receivedAcks → s.connection.recvQueue.Received n := by
  have hs := h.invariant inv_step (inv_create key destinationID free)
  refine ⟨fun e he => (hs.emitted e he).2, fun n hn => ?_⟩
  rcases hn with hn | hn
  · exact RecvQueue.received_of_le_getLastAck hs.queue (hn.trans hs.peerLastAck)
  · exact hs.peerAcks n hn

def usedPacket (ackNumber : ℕ) : Packet := { Packet.ofPayload [1] with ackNumber := ackNumber }

def sendOne (ackNumber : ℕ) : List Action :=
  [.send [usedPacket ackNumber], .sendPackets 0 10, .getPacketsToSend 5 1, .peerReceives 0]

theorem emitted_ack_le_lastAck_sendOne :
    ∃ s, Path step HonestHeaders (create ⟨1, 2⟩ 3 []) (sendOne 0) s ∧ s.emitted.length = 1 ∧
      (∀ e ∈ s.emitted, e.packet.ackNumber ≤ e.lastAck) ∧
        ∀ n, n ≤ s.peer.lastAckNumber ∨ n ∈ s.peer.receivedAcks → s.connection.recvQueue.Received n := by
  have h : ∃ s, Path step HonestHeaders (create ⟨1, 2⟩ 3 []) (sendOne 0) s ∧ s.emitted.length = 1 :=
    ⟨_, .cons trivial rfl (.cons (by
      simp [HonestHeaders, create, usedPacket, Connection.create, Connection.send]) rfl
      (.cons trivial rfl (.cons trivial rfl (.nil _)))), rfl⟩
  obtain ⟨s, hpath, hlen⟩ := h
  exact ⟨s, hpath, hlen, emitted_ack_le_lastAck hpath⟩

theorem emitted_stale_ack :
    ¬ ∀ (key : ConnectionKey) (destinationID : ℕ) (free : List Packet) (as : List Action) (s : DataState),
      run step (create key destinationID free) as = some s →
        (∀ e ∈ s.emitted, e.packet.ackNumber ≤ e.lastAck) ∧
          ∀ n, n ≤ s.peer.lastAckNumber → s.connection.recvQueue.Received n := by
  intro hall
  obtain ⟨hack, _⟩ := hall ⟨1, 2⟩ 3 [] (sendOne 5) _ rfl
  revert hack
  decide

end DataState

end FastTransport.Protocol
