import FastTransport.Protocol.SendQueue

/-! `InFlightQueue`: samples of sent packets, the acknowledgements received for them, and
their timeouts. A hash map of a sample is the list of its packets, keyed by number. -/

namespace FastTransport.Protocol

open Lib.Lists

structure Sample where
  packets : List OutgoingPacket
  servicePacketNumber : ℕ
  doubleSentPacketNumber : ℕ
  deriving DecidableEq, Repr

namespace Sample

def insert (packets : List OutgoingPacket) (p : OutgoingPacket) : List OutgoingPacket :=
  packets.filter (fun q => q.seqNumber ≠ p.seqNumber) ++ [p]

def processAcks (s : Sample) (acks : Finset ℕ) (lastAckNumber : ℕ) :
    Sample × List Packet × Finset ℕ :=
  let freed := s.packets.filter fun p => p.seqNumber ≤ lastAckNumber
  let packets := s.packets.filter fun p => lastAckNumber < p.seqNumber
  let found := packets.filter fun p => p.seqNumber ∈ acks
  ({ s with packets := packets.filter fun p => p.seqNumber ∉ acks },
    (freed ++ found).map OutgoingPacket.packet,
    acks.filter fun a => lastAckNumber < a ∧ a ∉ packets.map OutgoingPacket.seqNumber)

def checkTimeouts (s : Sample) (now timeout : ℕ) : Sample × List OutgoingPacket :=
  ({ s with packets := s.packets.filter fun p => now - p.sendTime ≤ timeout },
    s.packets.filter fun p => timeout < now - p.sendTime)

def isDead (s : Sample) : Bool := s.packets.isEmpty

end Sample

structure InFlightQueue where
  receivedAcks : Finset ℕ
  samples : List Sample
  lastAckNumber : ℕ
  deriving DecidableEq

namespace InFlightQueue

def create : InFlightQueue := ⟨∅, [], 0⟩

structure Adding where
  queue : List OutgoingPacket
  receivedAcks : Finset ℕ
  freePackets : List Packet
  freeInternalPackets : List Packet
  servicePacketNumber : ℕ
  doubleSentPacketNumber : ℕ

def addPacket (a : Adding) (p : OutgoingPacket) : Adding :=
  if p.needAck then
    if p.seqNumber ∈ a.receivedAcks then
      { a with doubleSentPacketNumber := a.doubleSentPacketNumber + 1
               receivedAcks := a.receivedAcks.erase p.seqNumber
               freePackets := a.freePackets ++ [p.packet] }
    else { a with queue := Sample.insert a.queue p }
  else
    { a with servicePacketNumber := a.servicePacketNumber + 1
             freeInternalPackets := a.freeInternalPackets ++ [p.packet] }

def adding (q : InFlightQueue) (packets : List OutgoingPacket) : Adding :=
  packets.foldl addPacket ⟨[], q.receivedAcks, [], [], 0, 0⟩

def addQueue (q : InFlightQueue) (packets : List OutgoingPacket) :
    (List Packet × List Packet) × InFlightQueue :=
  let a := q.adding packets
  ((a.freeInternalPackets, a.freePackets),
    { q with receivedAcks := a.receivedAcks
             samples := q.samples ++ [⟨a.queue, a.servicePacketNumber, a.doubleSentPacketNumber⟩] })

def setLastAck (q : InFlightQueue) (lastAck : ℕ) : InFlightQueue :=
  { q with lastAckNumber := max q.lastAckNumber lastAck }

def addAcks (q : InFlightQueue) (acks : List ℕ) : InFlightQueue :=
  { q with receivedAcks := q.receivedAcks ∪ acks.toFinset }

def processSamples (lastAckNumber : ℕ) : List Sample → Finset ℕ →
    List Sample × List Packet × Finset ℕ
  | [], acks => ([], [], acks)
  | s :: samples, acks =>
    let here := s.processAcks acks lastAckNumber
    let rest := processSamples lastAckNumber samples here.2.2
    (here.1 :: rest.1, here.2.1 ++ rest.2.1, rest.2.2)

def processAcks (q : InFlightQueue) : List Packet × InFlightQueue :=
  let done := processSamples q.lastAckNumber q.samples q.receivedAcks
  (done.2.1, { q with samples := done.1, receivedAcks := done.2.2 })

def checkTimeouts (q : InFlightQueue) (now timeout : ℕ) : List OutgoingPacket × InFlightQueue :=
  (q.samples.flatMap fun s => (s.checkTimeouts now timeout).2,
    { q with samples :=
        (q.samples.map fun s => (s.checkTimeouts now timeout).1).filter fun s => !s.isDead })

def sampled (q : InFlightQueue) : List OutgoingPacket := q.samples.flatMap Sample.packets

def getAllPackets (q : InFlightQueue) : List Packet × InFlightQueue :=
  (q.sampled.map OutgoingPacket.packet, { q with samples := q.samples.map fun s => { s with packets := [] } })

lemma insert_eq_append {queue : List OutgoingPacket} {p : OutgoingPacket}
    (h : ∀ q ∈ queue, q.seqNumber ≠ p.seqNumber) : Sample.insert queue p = queue ++ [p] := by
  rw [Sample.insert, List.filter_eq_self.mpr fun q hq => decide_eq_true (h q hq)]

lemma foldl_addPacket_spec {ps : List OutgoingPacket} {a : Adding} (hack : ∀ p ∈ ps, p.needAck = true)
    (hnd : (ps.map OutgoingPacket.seqNumber).Nodup)
    (hq : ∀ q ∈ a.queue, q.seqNumber ∉ ps.map OutgoingPacket.seqNumber) :
    ((ps.foldl addPacket a).queue.map OutgoingPacket.packet ++ (ps.foldl addPacket a).freePackets).Perm
        (a.queue.map OutgoingPacket.packet ++ a.freePackets ++ ps.map OutgoingPacket.packet) ∧
      (∀ p ∈ (ps.foldl addPacket a).freePackets, p ∈ a.freePackets ∨ p.seqNumber ∈ a.receivedAcks) ∧
      (ps.foldl addPacket a).receivedAcks ⊆ a.receivedAcks := by
  induction ps generalizing a with
  | nil => exact ⟨by simp, fun p hp => Or.inl hp, Finset.Subset.refl _⟩
  | cons p ps ih =>
    rw [List.map_cons, List.nodup_cons] at hnd
    simp only [List.map_cons, List.mem_cons, not_or] at hq
    have hpack := fun q hmem => hack q (List.mem_cons_of_mem p hmem)
    rw [List.foldl_cons]
    by_cases hp : p.seqNumber ∈ a.receivedAcks
    · have ha : addPacket a p =
          { a with doubleSentPacketNumber := a.doubleSentPacketNumber + 1
                   receivedAcks := a.receivedAcks.erase p.seqNumber
                   freePackets := a.freePackets ++ [p.packet] } := by
        rw [addPacket, if_pos (hack p List.mem_cons_self), if_pos hp]
      obtain ⟨h1, h2, h3⟩ := ih (a := addPacket a p) hpack hnd.2 fun q hmem => by
        rw [ha] at hmem
        exact (hq q hmem).2
      rw [ha] at h1 h2 h3 ⊢
      refine ⟨h1.trans (List.Perm.of_eq (by simp)), fun q hmem => ?_, h3.trans (Finset.erase_subset _ _)⟩
      rcases h2 q hmem with hold | hack'
      · rcases List.mem_append.mp hold with hold | hnew
        · exact Or.inl hold
        · rw [List.mem_singleton.mp hnew]
          exact Or.inr hp
      · exact Or.inr (Finset.mem_of_mem_erase hack')
    · have ha : addPacket a p = { a with queue := a.queue ++ [p] } := by
        rw [addPacket, if_pos (hack p List.mem_cons_self), if_neg hp,
          insert_eq_append fun q hmem => (hq q hmem).1]
      obtain ⟨h1, h2, h3⟩ := ih (a := addPacket a p) hpack hnd.2 fun q hmem => by
        rw [ha] at hmem
        rcases List.mem_append.mp hmem with hold | hnew
        · exact (hq q hold).2
        · rw [List.mem_singleton.mp hnew]
          exact hnd.1
      rw [ha] at h1 h2 h3 ⊢
      refine ⟨h1.trans ?_, h2, h3⟩
      simp only [List.map_append, List.map_cons, List.map_nil, List.append_assoc, List.singleton_append]
      exact (List.perm_middle.symm).append_left _

lemma addQueue_spec {q : InFlightQueue} {ps : List OutgoingPacket} (hack : ∀ p ∈ ps, p.needAck = true)
    (hnd : (ps.map OutgoingPacket.seqNumber).Nodup) :
    ((q.addQueue ps).2.sampled.map OutgoingPacket.packet ++ (q.addQueue ps).1.2).Perm
        (q.sampled.map OutgoingPacket.packet ++ ps.map OutgoingPacket.packet) ∧
      (∀ p ∈ (q.addQueue ps).1.2, p.seqNumber ∈ q.receivedAcks) ∧
      (q.addQueue ps).2.receivedAcks ⊆ q.receivedAcks := by
  obtain ⟨h1, h2, h3⟩ := foldl_addPacket_spec (a := ⟨[], q.receivedAcks, [], [], 0, 0⟩) hack hnd (by simp)
  refine ⟨?_, fun p hp => (h2 p hp).resolve_left List.not_mem_nil, h3⟩
  simp only [sampled, addQueue, adding, List.flatMap_append, List.flatMap_singleton, List.map_append,
    List.append_assoc]
  exact h1.append_left _

lemma foldl_addPacket_queue_mem {ps : List OutgoingPacket} {a : Adding} {p : OutgoingPacket}
    (h : p ∈ (ps.foldl addPacket a).queue) : p ∈ a.queue ∨ p ∈ ps := by
  induction ps generalizing a with
  | nil => exact Or.inl h
  | cons q ps ih =>
    rcases ih h with h | h
    · rw [addPacket] at h
      split_ifs at h
      · exact Or.inl h
      · rcases List.mem_append.mp h with h | h
        · exact Or.inl (List.mem_filter.mp h).1
        · exact Or.inr (List.mem_cons.mpr (Or.inl (List.mem_singleton.mp h)))
      · exact Or.inl h
    · exact Or.inr (List.mem_cons_of_mem q h)

lemma addQueue_sampled_mem {q : InFlightQueue} {ps : List OutgoingPacket} {p : OutgoingPacket}
    (h : p ∈ (q.addQueue ps).2.sampled) : p ∈ q.sampled ∨ p ∈ ps := by
  simp only [sampled, addQueue, List.flatMap_append, List.flatMap_singleton, List.mem_append] at h
  rcases h with h | h
  · exact Or.inl h
  · exact Or.inr ((foldl_addPacket_queue_mem h).resolve_left List.not_mem_nil)

lemma sample_processAcks_spec (s : Sample) (acks : Finset ℕ) (lastAckNumber : ℕ) :
    ((s.processAcks acks lastAckNumber).1.packets.map OutgoingPacket.packet ++
        (s.processAcks acks lastAckNumber).2.1).Perm (s.packets.map OutgoingPacket.packet) ∧
      (∀ p ∈ (s.processAcks acks lastAckNumber).2.1,
        p.seqNumber ≤ lastAckNumber ∨ p.seqNumber ∈ acks) ∧
      (s.processAcks acks lastAckNumber).2.2 ⊆ acks := by
  have hold := filter_perm s.packets (p := fun p => decide (p.seqNumber ≤ lastAckNumber))
    (q := fun p => decide (lastAckNumber < p.seqNumber)) fun p _ => by simp only [← decide_not, not_le]
  have hack := filter_perm (s.packets.filter fun p => lastAckNumber < p.seqNumber)
    (p := fun p => decide (p.seqNumber ∈ acks)) (q := fun p => decide (p.seqNumber ∉ acks)) (by simp)
  refine ⟨?_, ?_, Finset.filter_subset _ _⟩
  · simp only [Sample.processAcks]
    rw [← List.map_append]
    apply List.Perm.map
    refine List.perm_append_comm.trans ?_
    rw [List.append_assoc]
    exact (hack.append_left _).trans hold
  · intro p hp
    simp only [Sample.processAcks, List.mem_map, List.mem_append, List.mem_filter, decide_eq_true_eq] at hp
    obtain ⟨o, ho | ho, rfl⟩ := hp
    · exact Or.inl ho.2
    · exact Or.inr ho.2

lemma processSamples_spec (lastAckNumber : ℕ) (samples : List Sample) (acks : Finset ℕ) :
    (((processSamples lastAckNumber samples acks).1.flatMap Sample.packets).map OutgoingPacket.packet ++
        (processSamples lastAckNumber samples acks).2.1).Perm
          ((samples.flatMap Sample.packets).map OutgoingPacket.packet) ∧
      (∀ p ∈ (processSamples lastAckNumber samples acks).2.1,
        p.seqNumber ≤ lastAckNumber ∨ p.seqNumber ∈ acks) ∧
      (processSamples lastAckNumber samples acks).2.2 ⊆ acks := by
  induction samples generalizing acks with
  | nil => exact ⟨by simp [processSamples], by simp [processSamples], Finset.Subset.refl _⟩
  | cons s samples ih =>
    obtain ⟨h1, h2, h3⟩ := sample_processAcks_spec s acks lastAckNumber
    obtain ⟨g1, g2, g3⟩ := ih (s.processAcks acks lastAckNumber).2.2
    refine ⟨?_, ?_, g3.trans h3⟩
    · simp only [processSamples, List.flatMap_cons, List.map_append]
      exact (append_middle_perm _ _ _ _).trans (h1.append g1)
    · intro p hp
      rcases List.mem_append.mp hp with hp | hp
      · exact h2 p hp
      · exact (g2 p hp).imp_right fun hmem => h3 hmem

lemma processAcks_spec (q : InFlightQueue) :
    (q.processAcks.2.sampled.map OutgoingPacket.packet ++ q.processAcks.1).Perm
        (q.sampled.map OutgoingPacket.packet) ∧
      (∀ p ∈ q.processAcks.1, p.seqNumber ≤ q.lastAckNumber ∨ p.seqNumber ∈ q.receivedAcks) ∧
      q.processAcks.2.receivedAcks ⊆ q.receivedAcks :=
  processSamples_spec q.lastAckNumber q.samples q.receivedAcks

lemma processSamples_mem {lastAckNumber : ℕ} {samples : List Sample} {acks : Finset ℕ}
    {p : OutgoingPacket} (h : p ∈ (processSamples lastAckNumber samples acks).1.flatMap Sample.packets) :
    p ∈ samples.flatMap Sample.packets := by
  induction samples generalizing acks with
  | nil => exact h
  | cons s samples ih =>
    simp only [processSamples, List.flatMap_cons, List.mem_append] at h ⊢
    rcases h with h | h
    · exact Or.inl (List.mem_of_mem_filter (List.mem_of_mem_filter h))
    · exact Or.inr (ih h)

lemma processAcks_sampled_mem {q : InFlightQueue} {p : OutgoingPacket} (h : p ∈ q.processAcks.2.sampled) :
    p ∈ q.sampled :=
  processSamples_mem h

lemma flatMap_filter_isDead (samples : List Sample) :
    (samples.filter fun s => !s.isDead).flatMap Sample.packets = samples.flatMap Sample.packets := by
  induction samples with
  | nil => rfl
  | cons s samples ih =>
    rw [List.filter_cons, List.flatMap_cons, ← ih]
    split_ifs with h
    · rw [List.flatMap_cons]
    · simp only [Sample.isDead, Bool.not_eq_true', Bool.not_eq_false, List.isEmpty_iff] at h
      rw [h, List.nil_append]

lemma checkTimeouts_perm (q : InFlightQueue) (now timeout : ℕ) :
    ((q.checkTimeouts now timeout).2.sampled ++ (q.checkTimeouts now timeout).1).Perm q.sampled := by
  rw [sampled, checkTimeouts]
  simp only
  rw [flatMap_filter_isDead, sampled]
  induction q.samples with
  | nil => exact List.Perm.refl _
  | cons s samples ih =>
    have hs := filter_perm s.packets (p := fun p => decide (now - p.sendTime ≤ timeout))
      (q := fun p => decide (timeout < now - p.sendTime)) fun p _ => by simp only [← decide_not, not_le]
    simp only [List.map_cons, List.flatMap_cons]
    exact (append_middle_perm _ _ _ _).trans (hs.append ih)

end InFlightQueue

end FastTransport.Protocol
