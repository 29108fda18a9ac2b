import FastTransport.Lib.Runs
import FastTransport.Protocol.InFlightQueue
import FastTransport.Protocol.Sack

/-! A sender and a receiver joined by a network that loses, repeats and reorders packets: what
was transmitted once can arrive any number of times, at any later moment, or never. -/

namespace FastTransport.Protocol

open Lib.Runs Lib.Lists

structure Link where
  sendQueue : SendQueue
  inFlightQueue : InFlightQueue
  handedOut : List (List OutgoingPacket)
  recvQueue : RecvQueue
  wire : List Packet
  sacks : List Packet
  submitted : List Packet
  freed : List Packet
  received : List Packet

namespace Link

def initial : Link := ⟨SendQueue.create, InFlightQueue.create, [], RecvQueue.create, [], [], [], [], []⟩

inductive Action
  | sendPackets (packets : List Packet)
  | getPacketsToSend (size now : ℕ)
  | addQueue (batch : ℕ)
  | checkTimeouts (now timeout : ℕ)
  | addAcks (sack : ℕ)
  | setLastAck (sack : ℕ)
  | processAcks
  | addPacket (copy : ℕ)
  | proccessUnorderedPackets
  | sendSacks (route : Route) (free : List Packet)
  | recv

def step (s : Link) : Action → Option Link
  | .sendPackets packets =>
    some { s with sendQueue := s.sendQueue.sendPackets packets true, submitted := s.submitted ++ packets }
  | .getPacketsToSend size now =>
    let r := s.sendQueue.getPacketsToSend size
    let batch := r.1.map fun p => { p with sendTime := now }
    some { s with sendQueue := r.2, handedOut := s.handedOut ++ [batch]
                  wire := s.wire ++ batch.map OutgoingPacket.packet }
  | .addQueue i =>
    (s.handedOut[i]?).map fun batch =>
      let r := s.inFlightQueue.addQueue batch
      { s with handedOut := s.handedOut.eraseIdx i, inFlightQueue := r.2, freed := s.freed ++ r.1.2 }
  | .checkTimeouts now timeout =>
    let r := s.inFlightQueue.checkTimeouts now timeout
    some { s with inFlightQueue := r.2, sendQueue := s.sendQueue.reSendPackets r.1 }
  | .addAcks i =>
    (s.sacks[i]?).map fun k => { s with inFlightQueue := s.inFlightQueue.addAcks k.acks }
  | .setLastAck i =>
    (s.sacks[i]?).map fun k => { s with inFlightQueue := s.inFlightQueue.setLastAck k.ackNumber }
  | .processAcks =>
    let r := s.inFlightQueue.processAcks
    some { s with inFlightQueue := r.2, freed := s.freed ++ r.1 }
  | .addPacket i =>
    (s.wire[i]?).bind fun p => (s.recvQueue.addPacket p).map fun r => { s with recvQueue := r.2 }
  | .proccessUnorderedPackets =>
    s.recvQueue.proccessUnorderedPackets.map fun q => { s with recvQueue := q }
  | .sendSacks route free =>
    let r := s.recvQueue.getSelectiveAcks
    some { s with recvQueue := r.2
                  sacks := s.sacks ++ (sackPackets route s.recvQueue.getLastAck free r.1).1 }
  | .recv =>
    let r := s.recvQueue.recvUserData
    some { s with recvQueue := r.2, received := s.received ++ r.1 }

def stamp : ℕ → List Packet → List Packet
  | _, [] => []
  | n, p :: ps => { p with seqNumber := n + 1 } :: stamp (n + 1) ps

def held (s : Link) : List OutgoingPacket :=
  s.sendQueue.resendPackets ++ s.sendQueue.needToSend ++ (s.handedOut.flatten ++ s.inFlightQueue.sampled)

structure Acknowledged (q : RecvQueue) (sacks : List Packet) (f : InFlightQueue) (freed : List Packet) :
    Prop where
  selectiveAcks : ∀ n ∈ q.selectiveAcks, q.Received n
  sackNumber : ∀ k ∈ sacks, k.ackNumber ≤ q.getLastAck
  sackAcks : ∀ k ∈ sacks, ∀ n ∈ k.acks, q.Received n
  receivedAcks : ∀ n ∈ f.receivedAcks, q.Received n
  lastAckNumber : f.lastAckNumber ≤ q.getLastAck
  freed : ∀ p ∈ freed, q.Received p.seqNumber

structure Inv (s : Link) : Prop where
  number : s.sendQueue.nextPacketNumber = s.submitted.length
  needAck : ∀ p ∈ s.held, p.needAck = true
  kept : (s.held.map OutgoingPacket.packet ++ s.freed).Perm (stamp 0 s.submitted)
  wire : ∀ p ∈ s.wire, p ∈ stamp 0 s.submitted
  queue : s.recvQueue.Inv
  slot : ∀ i p, s.recvQueue.queue i = some p → p ∈ stamp 0 s.submitted
  delivered : s.received ++ s.recvQueue.data = (stamp 0 s.submitted).take s.recvQueue.getLastAck
  lastAck_le : s.recvQueue.getLastAck ≤ s.submitted.length
  acks : Acknowledged s.recvQueue s.sacks s.inFlightQueue s.freed

lemma inv_initial : initial.Inv where
  number := rfl
  needAck := fun p hp => by simp [held, initial, SendQueue.create, InFlightQueue.create, InFlightQueue.sampled] at hp
  kept := List.Perm.refl _
  wire := by simp [initial]
  queue := RecvQueue.inv_create
  slot := fun i p h => by cases h
  delivered := rfl
  lastAck_le := le_rfl
  acks := ⟨by simp [initial, RecvQueue.create], by simp [initial], by simp [initial],
    by simp [initial, InFlightQueue.create], le_rfl, by simp [initial]⟩

@[simp] lemma stamp_length (n : ℕ) (ps : List Packet) : (stamp n ps).length = ps.length := by
  induction ps generalizing n with
  | nil => rfl
  | cons p ps ih => rw [stamp, List.length_cons, ih, List.length_cons]

lemma stamp_append (n : ℕ) (ps qs : List Packet) :
    stamp n (ps ++ qs) = stamp n ps ++ stamp (n + ps.length) qs := by
  induction ps generalizing n with
  | nil => rfl
  | cons p ps ih =>
    rw [List.cons_append, stamp, stamp, ih, List.cons_append, List.length_cons, Nat.add_right_comm,
      Nat.add_assoc]

lemma seqNumber_stamp (n : ℕ) (ps : List Packet) :
    (stamp n ps).map Packet.seqNumber = List.range' (n + 1) ps.length := by
  induction ps generalizing n with
  | nil => rfl
  | cons p ps ih => rw [stamp, List.map_cons, ih, List.length_cons, List.range'_succ]

lemma seqNumber_stamp_nodup (n : ℕ) (ps : List Packet) : ((stamp n ps).map Packet.seqNumber).Nodup := by
  rw [seqNumber_stamp]
  exact List.nodup_range'

lemma getElem?_stamp {ps : List Packet} {p : Packet} (h : p ∈ stamp 0 ps) :
    1 ≤ p.seqNumber ∧ (stamp 0 ps)[p.seqNumber - 1]? = some p := by
  obtain ⟨i, hi, rfl⟩ := List.getElem_of_mem h
  have hs : ((stamp 0 ps).map Packet.seqNumber)[i]? = some (0 + 1 + 1 * i) := by
    rw [seqNumber_stamp, List.getElem?_range' (by simpa using hi)]
  rw [List.getElem?_map, List.getElem?_eq_getElem hi, Option.map_some, Option.some.injEq] at hs
  refine ⟨by omega, ?_⟩
  rw [hs, show 0 + 1 + 1 * i - 1 = i by omega, List.getElem?_eq_getElem hi]

lemma sendPackets_spec {q : SendQueue} {ps : List Packet}
    (h : q.nextPacketNumber + ps.length < seqLimit) :
    ∃ new, q.sendPackets ps true = { q with needToSend := q.needToSend ++ new
                                            nextPacketNumber := q.nextPacketNumber + ps.length } ∧
      new.map OutgoingPacket.packet = stamp q.nextPacketNumber ps ∧ ∀ p ∈ new, p.needAck = true := by
  induction ps generalizing q with
  | nil => exact ⟨[], by simp [SendQueue.sendPackets], rfl, by simp⟩
  | cons p ps ih =>
    rw [List.length_cons] at h
    have hmod : (q.nextPacketNumber + 1) % seqLimit = q.nextPacketNumber + 1 := Nat.mod_eq_of_lt (by omega)
    have hone : SendQueue.sendPacket true q p =
        { q with nextPacketNumber := q.nextPacketNumber + 1
                 needToSend := q.needToSend ++ [⟨{ p with seqNumber := q.nextPacketNumber + 1 }, true, 0⟩] } := by
      simp only [SendQueue.sendPacket, if_true, hmod]
    obtain ⟨new, hq, hnew, hack⟩ := ih (q := SendQueue.sendPacket true q p) (by rw [hone]; simp only; omega)
    refine ⟨⟨{ p with seqNumber := q.nextPacketNumber + 1 }, true, 0⟩ :: new, ?_, ?_, ?_⟩
    · rw [SendQueue.sendPackets, List.foldl_cons]
      refine hq.trans ?_
      rw [hone]
      simp only [List.append_assoc, List.singleton_append, List.length_cons, SendQueue.mk.injEq, true_and]
      omega
    · rw [hone] at hnew
      rw [List.map_cons, hnew, stamp]
    · exact List.forall_mem_cons.mpr ⟨rfl, hack⟩

lemma Acknowledged.receiver {q q' : RecvQueue} {sacks : List Packet} {f : InFlightQueue}
    {freed : List Packet} (h : Acknowledged q sacks f freed) (hr : ∀ n, q.Received n → q'.Received n)
    (hl : q.getLastAck ≤ q'.getLastAck) (hs : ∀ n ∈ q'.selectiveAcks, q'.Received n) :
    Acknowledged q' sacks f freed :=
  ⟨hs, fun k hk => (h.sackNumber k hk).trans hl, fun k hk n hn => hr n (h.sackAcks k hk n hn),
    fun n hn => hr n (h.receivedAcks n hn), h.lastAckNumber.trans hl, fun p hp => hr _ (h.freed p hp)⟩

lemma Acknowledged.sender {q : RecvQueue} {sacks : List Packet} {f f' : InFlightQueue}
    {freed more : List Packet} (hq : q.Inv) (h : Acknowledged q sacks f freed)
    (hacks : f'.receivedAcks ⊆ f.receivedAcks) (hlast : f'.lastAckNumber = f.lastAckNumber)
    (hmore : ∀ p ∈ more, p.seqNumber ≤ f.lastAckNumber ∨ p.seqNumber ∈ f.receivedAcks) :
    Acknowledged q sacks f' (freed ++ more) := by
  refine ⟨h.selectiveAcks, h.sackNumber, h.sackAcks, fun n hn => h.receivedAcks n (hacks hn),
    hlast ▸ h.lastAckNumber, fun p hp => ?_⟩
  rcases List.mem_append.mp hp with hp | hp
  · exact h.freed p hp
  · rcases hmore p hp with hle | hmem
    · exact RecvQueue.received_of_le_getLastAck hq (hle.trans h.lastAckNumber)
    · exact h.receivedAcks _ hmem

lemma Inv.addPacket {s : Link} (hs : s.Inv) {p : Packet} {r : (RecvQueueStatus × Option Packet) × RecvQueue}
    (hp : p ∈ stamp 0 s.submitted) (h : s.recvQueue.addPacket p = some r) :
    Inv { s with recvQueue := r.2 } := by
  have hb : r.2.beginFullRecievedAck = s.recvQueue.beginFullRecievedAck ∧ r.2.data = s.recvQueue.data := by
    rcases RecvQueue.addPacket_cases (r := r.1) h with he | ⟨he, _⟩ | ⟨he, _⟩ <;> rw [he] <;> exact ⟨rfl, rfl⟩
  have hl : r.2.getLastAck = s.recvQueue.getLastAck := by
    rw [RecvQueue.getLastAck, hb.1, RecvQueue.getLastAck]
  refine ⟨hs.number, hs.needAck, hs.kept, hs.wire, RecvQueue.addPacket_inv hs.queue h, ?_, ?_, ?_, ?_⟩
  · intro i p' hp'
    rcases RecvQueue.addPacket_cases (r := r.1) h with he | ⟨he, _⟩ | ⟨he, _⟩
    · exact hs.slot i p' (he ▸ hp')
    · exact hs.slot i p' (by rw [he] at hp'; exact hp')
    · simp only [he] at hp'
      by_cases hi : i = p.seqNumber % RecvQueue.queueSize
      · rw [hi, Function.update_self] at hp'
        cases hp'
        exact hp
      · rw [Function.update_of_ne hi] at hp'
        exact hs.slot i p' hp'
  · simp only
    rw [hl, hb.2]
    exact hs.delivered
  · simp only
    rw [hl]
    exact hs.lastAck_le
  · exact hs.acks.receiver (fun n hn => RecvQueue.addPacket_received h hn) hl.ge
      (RecvQueue.addPacket_selectiveAcks hs.queue hs.acks.selectiveAcks h)

lemma Inv.takeNext {s : Link} (hs : s.Inv) {p : Packet} (hp : s.recvQueue.queue
    (s.recvQueue.beginFullRecievedAck % RecvQueue.queueSize) = some p) :
    Inv { s with recvQueue := s.recvQueue.takeNext p } := by
  have hseq := RecvQueue.next_seqNumber hs.queue hp
  obtain ⟨hpos, hget⟩ := getElem?_stamp (hs.slot _ _ hp)
  have hlast : s.recvQueue.getLastAck = p.seqNumber - 1 := by rw [RecvQueue.getLastAck, hseq]
  have hnext : (s.recvQueue.takeNext p).getLastAck = s.recvQueue.getLastAck + 1 := by
    simp only [RecvQueue.takeNext, RecvQueue.getLastAck]
    omega
  rw [← hlast] at hget
  have hr := fun n hn => RecvQueue.takeNext_received hs.queue hp (n := n) hn
  refine ⟨hs.number, hs.needAck, hs.kept, hs.wire, RecvQueue.takeNext_inv hs.queue p, ?_, ?_, ?_, ?_⟩
  · intro i p' hp'
    simp only [RecvQueue.takeNext] at hp'
    by_cases hi : i = s.recvQueue.beginFullRecievedAck % RecvQueue.queueSize
    · rw [hi, Function.update_self] at hp'
      cases hp'
    · rw [Function.update_of_ne hi] at hp'
      exact hs.slot i p' hp'
  · simp only
    rw [hnext, List.take_add_one, hget, ← hs.delivered, RecvQueue.takeNext]
    simp
  · simp only
    rw [hnext]
    have hlt := (List.getElem?_eq_some_iff.mp hget).1
    rw [stamp_length] at hlt
    exact hlt
  · exact hs.acks.receiver hr (by rw [hnext]; exact Nat.le_succ _)
      fun n hn => hr n (hs.acks.selectiveAcks n hn)

lemma Inv.move {s t : Link} (hs : s.Inv) (hsub : t.submitted = s.submitted)
    (hnumber : t.sendQueue.nextPacketNumber = s.sendQueue.nextPacketNumber)
    (hrecv : t.recvQueue = s.recvQueue) (hreceived : t.received = s.received)
    (hack : ∀ p ∈ t.held, p.needAck = true)
    (hkept : (t.held.map OutgoingPacket.packet ++ t.freed).Perm
      (s.held.map OutgoingPacket.packet ++ s.freed))
    (hwire : ∀ p ∈ t.wire, p ∈ s.wire ∨ ∃ o ∈ s.held, o.packet = p)
    (hacks : Acknowledged s.recvQueue t.sacks t.inFlightQueue t.freed) : t.Inv := by
  refine ⟨?_, hack, ?_, fun p hp => ?_, ?_, ?_, ?_, ?_, ?_⟩
  · rw [hnumber, hsub, hs.number]
  · rw [hsub]
    exact hkept.trans hs.kept
  · rw [hsub]
    rcases hwire p hp with hp | ⟨o, ho, rfl⟩
    · exact hs.wire p hp
    · exact hs.kept.mem_iff.mp (List.mem_append_left _ (List.mem_map_of_mem ho))
  · rw [hrecv]
    exact hs.queue
  · rw [hrecv, hsub]
    exact hs.slot
  · rw [hrecv, hsub, hreceived]
    exact hs.delivered
  · rw [hrecv, hsub]
    exact hs.lastAck_le
  · rw [hrecv]
    exact hacks

lemma mem_held {s : Link} {p : OutgoingPacket} : p ∈ s.held ↔
    p ∈ s.sendQueue.resendPackets ++ s.sendQueue.needToSend ∨ p ∈ s.handedOut.flatten ∨
      p ∈ s.inFlightQueue.sampled := by
  rw [held, List.mem_append, List.mem_append (s := s.handedOut.flatten)]

lemma Inv.getPacketsToSend {s t : Link} (hs : s.Inv) {size now : ℕ}
    (h : s.step (.getPacketsToSend size now) = some t) : t.Inv := by
  cases h
  have hperm := s.sendQueue.getPacketsToSend_perm size
  have hpack : ((s.sendQueue.getPacketsToSend size).1.map fun p => { p with sendTime := now }).map
      OutgoingPacket.packet = (s.sendQueue.getPacketsToSend size).1.map OutgoingPacket.packet := by
    simp [List.map_map, Function.comp_def]
  have hmem : ∀ p ∈ (s.sendQueue.getPacketsToSend size).1, p ∈ s.held := fun p hp =>
    mem_held.mpr (Or.inl (hperm.mem_iff.mp (List.mem_append_left _ hp)))
  refine hs.move rfl rfl rfl rfl ?_ ?_ ?_ hs.acks
  · intro p hp
    rcases mem_held.mp hp with hp | hp | hp
    · exact hs.needAck p (mem_held.mpr (Or.inl (hperm.mem_iff.mp (List.mem_append_right _ hp))))
    · rw [List.flatten_append, List.mem_append] at hp
      rcases hp with hp | hp
      · exact hs.needAck p (mem_held.mpr (Or.inr (Or.inl hp)))
      · simp only [List.flatten_cons, List.flatten_nil, List.append_nil] at hp
        obtain ⟨o, ho, rfl⟩ := List.mem_map.mp hp
        exact hs.needAck o (hmem o ho)
    · exact hs.needAck p (mem_held.mpr (Or.inr (Or.inr hp)))
  · apply List.perm_iff_count.mpr
    intro p
    have hc := List.perm_iff_count.mp (hperm.map OutgoingPacket.packet) p
    simp only [held, List.map_append, List.count_append, List.flatten_append, List.flatten_cons,
      List.flatten_nil, List.append_nil, hpack] at hc ⊢
    omega
  · intro p hp
    rcases List.mem_append.mp hp with hp | hp
    · exact Or.inl hp
    · rw [hpack] at hp
      obtain ⟨o, ho, rfl⟩ := List.mem_map.mp hp
      exact Or.inr ⟨o, hmem o ho, rfl⟩

lemma Inv.seqNumber_nodup {s : Link} (hs : s.Inv) : (s.held.map OutgoingPacket.seqNumber).Nodup := by
  have hn := (hs.kept.map Packet.seqNumber).nodup_iff.mpr (seqNumber_stamp_nodup 0 s.submitted)
  rw [List.map_append, List.map_map] at hn
  exact hn.of_append_left

lemma Inv.addQueue {s t : Link} (hs : s.Inv) {i : ℕ} (h : s.step (.addQueue i) = some t) : t.Inv := by
  obtain ⟨batch, hb, rfl⟩ := Option.map_eq_some_iff.mp h
  have hout : (batch ++ (s.handedOut.eraseIdx i).flatten).Perm s.handedOut.flatten := by
    obtain ⟨hi, rfl⟩ := List.getElem?_eq_some_iff.mp hb
    exact (List.getElem_cons_eraseIdx_perm hi).flatten
  have hmem : ∀ p ∈ batch, p ∈ s.held := fun p hp =>
    mem_held.mpr (Or.inr (Or.inl (hout.mem_iff.mp (List.mem_append_left _ hp))))
  have hnd : (batch.map OutgoingPacket.seqNumber).Nodup := by
    have hn := hs.seqNumber_nodup
    simp only [held, List.map_append] at hn
    have hn := ((hout.map OutgoingPacket.seqNumber).nodup_iff.mpr hn.of_append_right.of_append_left)
    rw [List.map_append] at hn
    exact hn.of_append_left
  obtain ⟨hperm, hfree, hacks⟩ := InFlightQueue.addQueue_spec (q := s.inFlightQueue)
    (fun p hp => hs.needAck p (hmem p hp)) hnd
  refine hs.move rfl rfl rfl rfl ?_ ?_ (fun p hp => Or.inl hp)
    (hs.acks.sender hs.queue hacks rfl fun p hp => Or.inr (hfree p hp))
  · intro p hp
    rcases mem_held.mp hp with hp | hp | hp
    · exact hs.needAck p (mem_held.mpr (Or.inl hp))
    · exact hs.needAck p (mem_held.mpr (Or.inr (Or.inl (hout.mem_iff.mp (List.mem_append_right _ hp)))))
    · rcases InFlightQueue.addQueue_sampled_mem hp with hp | hp
      · exact hs.needAck p (mem_held.mpr (Or.inr (Or.inr hp)))
      · exact hs.needAck p (hmem p hp)
  · apply List.perm_iff_count.mpr
    intro p
    have hc := List.perm_iff_count.mp hperm p
    have ho := List.perm_iff_count.mp (hout.map OutgoingPacket.packet) p
    simp only [held, List.map_append, List.count_append] at hc ho ⊢
    omega

lemma Inv.checkTimeouts {s t : Link} (hs : s.Inv) {now timeout : ℕ}
    (h : s.step (.checkTimeouts now timeout) = some t) : t.Inv := by
  cases h
  have hperm := s.inFlightQueue.checkTimeouts_perm now timeout
  have hmem : ∀ p, p ∈ (s.inFlightQueue.checkTimeouts now timeout).2.sampled ∨
      p ∈ (s.inFlightQueue.checkTimeouts now timeout).1 → p ∈ s.held := fun p hp =>
    mem_held.mpr (Or.inr (Or.inr (hperm.mem_iff.mp (List.mem_append.mpr hp))))
  refine hs.move rfl rfl rfl rfl ?_ ?_ (fun p hp => Or.inl hp) ?_
  · intro p hp
    rcases mem_held.mp hp with hp | hp | hp
    · simp only [SendQueue.reSendPackets, List.mem_append] at hp
      rcases hp with (hp | hp) | hp
      · exact hs.needAck p (mem_held.mpr (Or.inl (List.mem_append_left _ hp)))
      · exact hs.needAck p (hmem p (Or.inr hp))
      · exact hs.needAck p (mem_held.mpr (Or.inl (List.mem_append_right _ hp)))
    · exact hs.needAck p (mem_held.mpr (Or.inr (Or.inl hp)))
    · exact hs.needAck p (hmem p (Or.inl hp))
  · apply List.perm_iff_count.mpr
    intro p
    have hc := List.perm_iff_count.mp (hperm.map OutgoingPacket.packet) p
    simp only [held, SendQueue.reSendPackets, List.map_append, List.count_append] at hc ⊢
    omega
  · have hsend : Acknowledged s.recvQueue s.sacks (s.inFlightQueue.checkTimeouts now timeout).2
        (s.freed ++ []) := hs.acks.sender hs.queue (Finset.Subset.refl _) rfl (by simp)
    rwa [List.append_nil] at hsend

lemma Inv.processAcks {s t : Link} (hs : s.Inv) (h : s.step .processAcks = some t) : t.Inv := by
  cases h
  obtain ⟨hperm, hfree, hacks⟩ := s.inFlightQueue.processAcks_spec
  refine hs.move rfl rfl rfl rfl ?_ ?_ (fun p hp => Or.inl hp) (hs.acks.sender hs.queue hacks rfl hfree)
  · intro p hp
    rcases mem_held.mp hp with hp | hp | hp
    · exact hs.needAck p (mem_held.mpr (Or.inl hp))
    · exact hs.needAck p (mem_held.mpr (Or.inr (Or.inl hp)))
    · exact hs.needAck p (mem_held.mpr (Or.inr (Or.inr (InFlightQueue.processAcks_sampled_mem hp))))
  · apply List.perm_iff_count.mpr
    intro p
    have hc := List.perm_iff_count.mp hperm p
    simp only [held, List.map_append, List.count_append] at hc ⊢
    omega

lemma Inv.sendPackets {s t : Link} (hs : s.Inv) {packets : List Packet}
    (h : s.step (.sendPackets packets) = some t) (hlt : t.submitted.length < seqLimit) : t.Inv := by
  cases h
  rw [List.length_append, ← hs.number] at hlt
  obtain ⟨new, hq, hnew, hack⟩ := sendPackets_spec hlt
  have hstamp : stamp 0 (s.submitted ++ packets) = stamp 0 s.submitted ++ stamp s.submitted.length packets := by
    rw [stamp_append, Nat.zero_add]
  have hle := hs.lastAck_le
  simp only [hq]
  refine ⟨?_, ?_, ?_, ?_, hs.queue, ?_, ?_, ?_, hs.acks⟩
  · simp [hs.number]
  · intro p hp
    rcases mem_held.mp hp with hp | hp | hp
    · simp only [← List.append_assoc] at hp
      rcases List.mem_append.mp hp with hp | hp
      · exact hs.needAck p (mem_held.mpr (Or.inl hp))
      · exact hack p hp
    · exact hs.needAck p (mem_held.mpr (Or.inr (Or.inl hp)))
    · exact hs.needAck p (mem_held.mpr (Or.inr (Or.inr hp)))
  · apply List.perm_iff_count.mpr
    intro p
    have hc := List.perm_iff_count.mp hs.kept p
    rw [hs.number] at hnew
    rw [hstamp, ← hnew]
    simp only [held, List.map_append, List.count_append] at hc ⊢
    omega
  · intro p hp
    rw [hstamp]
    exact List.mem_append_left _ (hs.wire p hp)
  · intro i p hp
    rw [hstamp]
    exact List.mem_append_left _ (hs.slot i p hp)
  · simp only
    rw [hstamp, List.take_append_of_le_length (by rwa [stamp_length]), hs.delivered]
  · simp only [List.length_append]
    omega

lemma Inv.addAcks {s t : Link} (hs : s.Inv) {i : ℕ} (h : s.step (.addAcks i) = some t) : t.Inv := by
  obtain ⟨k, hk, rfl⟩ := Option.map_eq_some_iff.mp h
  have hmem := List.mem_of_getElem? hk
  refine hs.move rfl rfl rfl rfl hs.needAck (List.Perm.refl _) (fun p hp => Or.inl hp)
    { hs.acks with receivedAcks := fun n hn => ?_ }
  simp only [InFlightQueue.addAcks, Finset.mem_union, List.mem_toFinset] at hn
  rcases hn with hn | hn
  · exact hs.acks.receivedAcks n hn
  · exact hs.acks.sackAcks k hmem n hn

lemma Inv.setLastAck {s t : Link} (hs : s.Inv) {i : ℕ} (h : s.step (.setLastAck i) = some t) : t.Inv := by
  obtain ⟨k, hk, rfl⟩ := Option.map_eq_some_iff.mp h
  have hmem := List.mem_of_getElem? hk
  exact hs.move rfl rfl rfl rfl hs.needAck (List.Perm.refl _) (fun p hp => Or.inl hp)
    { hs.acks with lastAckNumber := max_le hs.acks.lastAckNumber (hs.acks.sackNumber k hmem) }

lemma Inv.sendSacks {s t : Link} (hs : s.Inv) {route : Route} {free : List Packet}
    (h : s.step (.sendSacks route free) = some t) : t.Inv := by
  cases h
  refine ⟨hs.number, hs.needAck, hs.kept, hs.wire, ⟨hs.queue.begin_pos, hs.queue.slot⟩, hs.slot,
    hs.delivered, hs.lastAck_le, ?_⟩
  refine ⟨by simp [RecvQueue.getSelectiveAcks], fun k hk => ?_, fun k hk n hn => ?_, hs.acks.receivedAcks,
    hs.acks.lastAckNumber, hs.acks.freed⟩
  · rcases List.mem_append.mp hk with hk | hk
    · exact hs.acks.sackNumber k hk
    · exact (sackPackets_spec hk).2.1.le
  · rcases List.mem_append.mp hk with hk | hk
    · exact hs.acks.sackAcks k hk n hn
    · exact hs.acks.selectiveAcks n ((sackPackets_spec hk).2.2 n hn)

lemma Inv.recv {s t : Link} (hs : s.Inv) (h : s.step .recv = some t) : t.Inv := by
  cases h
  refine ⟨hs.number, hs.needAck, hs.kept, hs.wire, ⟨hs.queue.begin_pos, hs.queue.slot⟩, hs.slot, ?_,
    hs.lastAck_le, ?_⟩
  · simpa [RecvQueue.recvUserData, RecvQueue.getLastAck] using hs.delivered
  · exact hs.acks.receiver (fun n hn => hn) le_rfl hs.acks.selectiveAcks

lemma inv_step {s t : Link} {a : Action} (hs : s.Inv) (h : s.step a = some t)
    (hlt : t.submitted.length < seqLimit) : t.Inv := by
  cases a with
  | sendPackets packets => exact hs.sendPackets h hlt
  | getPacketsToSend size now => exact hs.getPacketsToSend h
  | addQueue i => exact hs.addQueue h
  | checkTimeouts now timeout => exact hs.checkTimeouts h
  | addAcks i => exact hs.addAcks h
  | setLastAck i => exact hs.setLastAck h
  | processAcks => exact hs.processAcks h
  | addPacket i =>
    obtain ⟨p, hp, h⟩ := Option.bind_eq_some_iff.mp h
    obtain ⟨r, hr, rfl⟩ := Option.map_eq_some_iff.mp h
    exact hs.addPacket (hs.wire p (List.mem_of_getElem? hp)) hr
  | proccessUnorderedPackets =>
    obtain ⟨q, hq, rfl⟩ := Option.map_eq_some_iff.mp h
    exact RecvQueue.proccessLoop_induction (P := fun q => Inv { s with recvQueue := q })
      (fun q p hinv hp _ => hinv.takeNext hp) hs hq
  | sendSacks route free => exact hs.sendSacks h
  | recv => exact hs.recv h

lemma submitted_le {s t : Link} {a : Action} (h : s.step a = some t) :
    s.submitted.length ≤ t.submitted.length := by
  cases a with
  | sendPackets packets =>
    cases h
    simp
  | addQueue i =>
    obtain ⟨_, _, rfl⟩ := Option.map_eq_some_iff.mp h
    rfl
  | addAcks i =>
    obtain ⟨_, _, rfl⟩ := Option.map_eq_some_iff.mp h
    rfl
  | setLastAck i =>
    obtain ⟨_, _, rfl⟩ := Option.map_eq_some_iff.mp h
    rfl
  | addPacket i =>
    obtain ⟨_, _, h⟩ := Option.bind_eq_some_iff.mp h
    obtain ⟨_, _, rfl⟩ := Option.map_eq_some_iff.mp h
    rfl
  | proccessUnorderedPackets =>
    obtain ⟨_, _, rfl⟩ := Option.map_eq_some_iff.mp h
    rfl
  | _ =>
    cases h
    rfl

lemma inv_run {s : Link} {as : List Action} (h : run step initial as = some s)
    (hlt : s.submitted.length < seqLimit) : s.Inv :=
  run_invariant (P := fun s => s.submitted.length < seqLimit → s.Inv)
    (fun _ _ _ hs hstep hlt => inv_step (hs ((submitted_le hstep).trans_lt hlt)) hstep hlt)
    (fun _ => inv_initial) h hlt

def places (s : Link) (p : Packet) : ℕ :=
  (s.sendQueue.needToSend.map OutgoingPacket.packet).count p +
    (s.sendQueue.resendPackets.map OutgoingPacket.packet).count p +
    (s.handedOut.flatten.map OutgoingPacket.packet).count p +
    (s.inFlightQueue.sampled.map OutgoingPacket.packet).count p

lemma Inv.places_eq {s : Link} (hs : s.Inv) {p : Packet} (hp : p ∈ stamp 0 s.submitted)
    (hf : p ∉ s.freed) : s.places p = 1 := by
  have hc := List.perm_iff_count.mp hs.kept p
  have hone : (stamp 0 s.submitted).count p = 1 :=
    List.count_eq_one_of_mem (seqNumber_stamp_nodup 0 s.submitted).of_map hp
  have hzero := List.count_eq_zero_of_not_mem hf
  simp only [held, List.map_append, List.count_append] at hc
  rw [places]
  omega

theorem reliable_delivery {s : Link} {as : List Action} (h : run step initial as = some s)
    (hlt : s.submitted.length < seqLimit - 1) :
    s.received ++ s.recvQueue.data <+: stamp 0 s.submitted ∧
      (∀ p ∈ s.freed, s.recvQueue.Received p.seqNumber) ∧
      ∀ p ∈ stamp 0 s.submitted, p ∉ s.freed → s.places p = 1 := by
  have hs := inv_run h (by omega)
  refine ⟨?_, hs.acks.freed, fun p hp hf => hs.places_eq hp hf⟩
  rw [hs.delivered]
  exact List.take_prefix _ _

def sampleRun : List Action :=
  [.sendPackets [Packet.ofPayload [1], Packet.ofPayload [2]], .getPacketsToSend 1 5, .addPacket 0,
    .sendSacks ⟨1, 2, 3⟩ [Packet.ofPayload []], .addAcks 0, .addQueue 0, .proccessUnorderedPackets, .recv]

theorem reliable_delivery_sampleRun :
    ∃ s, run step initial sampleRun = some s ∧ s.received.length = 1 ∧ s.freed.length = 1 ∧
      s.received ++ s.recvQueue.data <+: stamp 0 s.submitted ∧
        (∀ p ∈ s.freed, s.recvQueue.Received p.seqNumber) ∧
        ∀ p ∈ stamp 0 s.submitted, p ∉ s.freed → s.places p = 1 :=
  ⟨_, rfl, rfl, rfl, @reliable_delivery _ sampleRun rfl (by decide)⟩

end Link

end FastTransport.Protocol
