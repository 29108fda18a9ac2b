import FastTransport.Lib.Runs
import FastTransport.Protocol.InFlightQueue

/-! A queue of packets in flight with the history of its calls: what was added, what was freed, what timed out. -/

namespace FastTransport.Protocol

open Lib.Runs Lib.Lists

namespace InFlightQueue

lemma foldl_addPacket_filter (ps : List OutgoingPacket) (a : Adding) :
    (ps.foldl addPacket a).queue = ((ps.filter OutgoingPacket.needAck).foldl addPacket a).queue ∧
      (ps.foldl addPacket a).receivedAcks = ((ps.filter OutgoingPacket.needAck).foldl addPacket a).receivedAcks ∧
      (ps.foldl addPacket a).freePackets = ((ps.filter OutgoingPacket.needAck).foldl addPacket a).freePackets ∧
      (ps.foldl addPacket a).freeInternalPackets =
        a.freeInternalPackets ++ (ps.filter fun p => !p.needAck).map OutgoingPacket.packet := by
  have hframe (ps : List OutgoingPacket) (a b : Adding) (hq : a.queue = b.queue)
      (hr : a.receivedAcks = b.receivedAcks) (hf : a.freePackets = b.freePackets)
      (hall : ∀ p ∈ ps, p.needAck = true) :
      (ps.foldl addPacket a).queue = (ps.foldl addPacket b).queue ∧
        (ps.foldl addPacket a).receivedAcks = (ps.foldl addPacket b).receivedAcks ∧
        (ps.foldl addPacket a).freePackets = (ps.foldl addPacket b).freePackets := by
    induction ps generalizing a b with
    | nil => exact ⟨hq, hr, hf⟩
    | cons p ps ih =>
      have hp := hall p List.mem_cons_self
      have hps : ∀ p ∈ ps, p.needAck = true := fun q hmem => hall q (List.mem_cons_of_mem p hmem)
      rw [List.foldl_cons, List.foldl_cons]
      by_cases hmem : p.seqNumber ∈ b.receivedAcks
      · apply ih _ _ _ _ _ hps <;> simp [addPacket, hp, hq, hr, hf, hmem]
      · apply ih _ _ _ _ _ hps <;> simp [addPacket, hp, hq, hr, hf, hmem]
  induction ps generalizing a with
  | nil => exact ⟨rfl, rfl, rfl, by simp⟩
  | cons p ps ih =>
    obtain ⟨hqueue, hacks, hfree, hinternal⟩ := ih (addPacket a p)
    cases hp : p.needAck with
    | true =>
      have hsame : (addPacket a p).freeInternalPackets = a.freeInternalPackets := by
        rw [addPacket, if_pos hp]
        split_ifs <;> rfl
      simp only [List.foldl_cons, List.filter_cons, hp, if_true, Bool.not_true, Bool.false_eq_true, if_false]
      exact ⟨hqueue, hacks, hfree, hinternal.trans (congrArg (· ++ _) hsame)⟩
    | false =>
      have hstep : addPacket a p =
          { a with servicePacketNumber := a.servicePacketNumber + 1
                   freeInternalPackets := a.freeInternalPackets ++ [p.packet] } := by
        rw [addPacket, if_neg (by simp [hp])]
      obtain ⟨hq, hr, hf⟩ := hframe (ps.filter OutgoingPacket.needAck) (addPacket a p) a (by rw [hstep])
        (by rw [hstep]) (by rw [hstep]) (by simp)
      simp only [List.foldl_cons, List.filter_cons, hp, Bool.not_false, if_true, Bool.false_eq_true, if_false]
      refine ⟨hqueue.trans hq, hacks.trans hr, hfree.trans hf, ?_⟩
      rw [hinternal, hstep, List.map_cons, List.append_assoc, List.singleton_append]

lemma addQueue_filter (q : InFlightQueue) (ps : List OutgoingPacket) :
    (q.addQueue ps).2.sampled = (q.addQueue (ps.filter OutgoingPacket.needAck)).2.sampled ∧
      (q.addQueue ps).2.receivedAcks = (q.addQueue (ps.filter OutgoingPacket.needAck)).2.receivedAcks ∧
      (q.addQueue ps).1.2 = (q.addQueue (ps.filter OutgoingPacket.needAck)).1.2 ∧
      (q.addQueue ps).1.1 = (ps.filter fun p => !p.needAck).map OutgoingPacket.packet := by
  obtain ⟨hqueue, hacks, hfree, hinternal⟩ := foldl_addPacket_filter ps ⟨[], q.receivedAcks, [], [], 0, 0⟩
  refine ⟨?_, hacks, hfree, hinternal⟩
  simpa [sampled, addQueue, adding] using hqueue

lemma foldl_addPacket_acks {ps : List OutgoingPacket} {a : Adding} (hack : ∀ p ∈ ps, p.needAck = true)
    (hnd : (ps.map OutgoingPacket.seqNumber).Nodup)
    (hq : ∀ q ∈ a.queue, q.seqNumber ∉ ps.map OutgoingPacket.seqNumber) :
    (∀ p ∈ ps, if p.seqNumber ∈ a.receivedAcks then p.packet ∈ (ps.foldl addPacket a).freePackets
        else p ∈ (ps.foldl addPacket a).queue) ∧
      (∀ p ∈ a.freePackets, p ∈ (ps.foldl addPacket a).freePackets) ∧
      (∀ p ∈ a.queue, p ∈ (ps.foldl addPacket a).queue) ∧
      ∀ n ∈ a.receivedAcks, n ∈ (ps.foldl addPacket a).receivedAcks ∨
        n ∈ (ps.foldl addPacket a).freePackets.map Packet.seqNumber := by
  induction ps generalizing a with
  | nil => exact ⟨fun _ hp => absurd hp List.not_mem_nil, fun _ hp => hp, fun _ hp => hp, fun _ hn => Or.inl hn⟩
  | cons p ps ih =>
    rw [List.map_cons, List.nodup_cons] at hnd
    simp only [List.map_cons, List.mem_cons, not_or] at hq
    have hpack := fun q hmem => hack q (List.mem_cons_of_mem p hmem)
    have hother : ∀ q ∈ ps, q.seqNumber ≠ p.seqNumber := fun q hmem heq => hnd.1 (heq ▸ List.mem_map_of_mem hmem)
    rw [List.foldl_cons]
    by_cases hp : p.seqNumber ∈ a.receivedAcks
    · have ha : addPacket a p =
          { a with doubleSentPacketNumber := a.doubleSentPacketNumber + 1
                   receivedAcks := a.receivedAcks.erase p.seqNumber
                   freePackets := a.freePackets ++ [p.packet] } := by
        rw [addPacket, if_pos (hack p List.mem_cons_self), if_pos hp]
      obtain ⟨h1, h2, h3, h4⟩ := ih (a := addPacket a p) hpack hnd.2 fun q hmem => by
        rw [ha] at hmem
        exact (hq q hmem).2
      rw [ha] at h1 h2 h3 h4 ⊢
      refine ⟨fun q hmem => ?_, fun q hmem => h2 q (List.mem_append_left _ hmem), h3, fun n hn => ?_⟩
      · rcases List.mem_cons.mp hmem with rfl | hmem
        · rw [if_pos hp]
          exact h2 _ (List.mem_append_right _ (List.mem_singleton_self _))
        · simpa [hother q hmem] using h1 q hmem
      · by_cases heq : n = p.seqNumber
        · apply Or.inr
          rw [heq]
          exact List.mem_map_of_mem (h2 p.packet (List.mem_append_right _ (List.mem_singleton_self _)))
        · exact h4 n (Finset.mem_erase.mpr ⟨heq, hn⟩)
    · have ha : addPacket a p = { a with queue := a.queue ++ [p] } := by
        rw [addPacket, if_pos (hack p List.mem_cons_self), if_neg hp,
          insert_eq_append fun q hmem => (hq q hmem).1]
      obtain ⟨h1, h2, h3, h4⟩ := ih (a := addPacket a p) hpack hnd.2 fun q hmem => by
        rw [ha] at hmem
        rcases List.mem_append.mp hmem with hold | hnew
        · exact (hq q hold).2
        · rw [List.mem_singleton.mp hnew]
          exact hnd.1
      rw [ha] at h1 h2 h3 h4 ⊢
      refine ⟨fun q hmem => ?_, h2, fun q hmem => h3 q (List.mem_append_left _ hmem), h4⟩
      rcases List.mem_cons.mp hmem with rfl | hmem
      · rw [if_neg hp]
        exact h3 _ (List.mem_append_right _ (List.mem_singleton_self _))
      · exact h1 q hmem

lemma sample_processAcks_acks (s : Sample) (acks : Finset ℕ) (lastAckNumber : ℕ) :
    (∀ p ∈ s.packets, p.seqNumber ≤ lastAckNumber → p.packet ∈ (s.processAcks acks lastAckNumber).2.1) ∧
      ∀ n ∈ acks, n ∈ (s.processAcks acks lastAckNumber).2.2 ∨ n ≤ lastAckNumber ∨
        n ∈ (s.processAcks acks lastAckNumber).2.1.map Packet.seqNumber := by
  refine ⟨fun p hp hle => ?_, fun n hn => ?_⟩
  · apply List.mem_map_of_mem
    exact List.mem_append_left _ (List.mem_filter.mpr ⟨hp, decide_eq_true hle⟩)
  · by_cases hle : n ≤ lastAckNumber
    · exact Or.inr (Or.inl hle)
    · by_cases hmem : n ∈ (s.packets.filter fun p => lastAckNumber < p.seqNumber).map OutgoingPacket.seqNumber
      · obtain ⟨p, hp, rfl⟩ := List.mem_map.mp hmem
        refine Or.inr (Or.inr (List.mem_map.mpr ⟨p.packet, List.mem_map_of_mem ?_, rfl⟩))
        exact List.mem_append_right _ (List.mem_filter.mpr ⟨hp, decide_eq_true hn⟩)
      · exact Or.inl (Finset.mem_filter.mpr ⟨hn, by omega, hmem⟩)

lemma processSamples_acks (lastAckNumber : ℕ) (samples : List Sample) (acks : Finset ℕ) :
    (∀ p ∈ samples.flatMap Sample.packets, p.seqNumber ≤ lastAckNumber →
        p.packet ∈ (processSamples lastAckNumber samples acks).2.1) ∧
      ∀ n ∈ acks, n ∈ (processSamples lastAckNumber samples acks).2.2 ∨ n ≤ lastAckNumber ∨
        n ∈ (processSamples lastAckNumber samples acks).2.1.map Packet.seqNumber := by
  induction samples generalizing acks with
  | nil => exact ⟨fun _ hp => absurd hp List.not_mem_nil, fun _ hn => Or.inl hn⟩
  | cons s samples ih =>
    obtain ⟨h1, h2⟩ := sample_processAcks_acks s acks lastAckNumber
    obtain ⟨g1, g2⟩ := ih (s.processAcks acks lastAckNumber).2.2
    refine ⟨fun p hp hle => ?_, fun n hn => ?_⟩
    · rcases List.mem_append.mp hp with hp | hp
      · exact List.mem_append_left _ (h1 p hp hle)
      · exact List.mem_append_right _ (g1 p hp hle)
    · simp only [processSamples, List.map_append, List.mem_append]
      rcases h2 n hn with hn | hn | hn
      · rcases g2 n hn with hn | hn | hn
        · exact Or.inl hn
        · exact Or.inr (Or.inl hn)
        · exact Or.inr (Or.inr (Or.inr hn))
      · exact Or.inr (Or.inl hn)
      · exact Or.inr (Or.inr (Or.inl hn))

end InFlightQueue

structure InFlightHistory where
  queue : InFlightQueue
  added : List Packet
  service : List Packet
  internal : List Packet
  freed : List Packet
  timedOut : List Packet
  gathered : List Packet
  acked : List ℕ
  lastAcks : List ℕ

namespace InFlightHistory

def create : InFlightHistory := ⟨InFlightQueue.create, [], [], [], [], [], [], [], []⟩

inductive Action
  | addQueue (packets : List OutgoingPacket)
  | addAcks (acks : List ℕ)
  | setLastAck (lastAck : ℕ)
  | processAcks
  | checkTimeouts (now timeout : ℕ)
  | getAllPackets

def step (s : InFlightHistory) : Action → Option InFlightHistory
  | .addQueue packets =>
    let r := s.queue.addQueue packets
    some { s with
      queue := r.2
      added := s.added ++ (packets.filter OutgoingPacket.needAck).map OutgoingPacket.packet
      service := s.service ++ (packets.filter fun p => !p.needAck).map OutgoingPacket.packet
      internal := s.internal ++ r.1.1
      freed := s.freed ++ r.1.2 }
  | .addAcks acks => some { s with queue := s.queue.addAcks acks, acked := s.acked ++ acks }
  | .setLastAck lastAck => some { s with queue := s.queue.setLastAck lastAck, lastAcks := lastAck :: s.lastAcks }
  | .processAcks => some { s with queue := s.queue.processAcks.2, freed := s.freed ++ s.queue.processAcks.1 }
  | .checkTimeouts now timeout =>
    let r := s.queue.checkTimeouts now timeout
    some { s with queue := r.2, timedOut := s.timedOut ++ r.1.map OutgoingPacket.packet }
  | .getAllPackets =>
    some { s with queue := s.queue.getAllPackets.2, gathered := s.gathered ++ s.queue.getAllPackets.1 }

def Fresh (s : InFlightHistory) : Action → Prop
  | .addQueue packets =>
    ((packets.filter OutgoingPacket.needAck).map OutgoingPacket.seqNumber).Nodup ∧
      ∀ p ∈ packets, p.needAck = true → p.seqNumber ∉ s.queue.sampled.map OutgoingPacket.seqNumber ∧
        p.seqNumber ∉ (s.freed ++ s.gathered).map Packet.seqNumber
  | _ => True

def Acknowledged (s : InFlightHistory) (n : ℕ) : Prop := n ∈ s.acked ∨ n ≤ s.lastAcks.foldr max 0

structure Conserved (s : InFlightHistory) : Prop where
  added : s.added.Perm (s.queue.sampled.map OutgoingPacket.packet ++ s.freed ++ s.gathered ++ s.timedOut)
  freed : ∀ p ∈ s.freed, s.Acknowledged p.seqNumber
  internal : s.internal = s.service

structure Inv (s : InFlightHistory) : Prop extends s.Conserved where
  lastAck : s.queue.lastAckNumber = s.lastAcks.foldr max 0
  received : ∀ n ∈ s.queue.receivedAcks, n ∈ s.acked
  kept : ∀ n ∈ s.acked, n ∈ s.queue.receivedAcks ∨ n ≤ s.queue.lastAckNumber ∨ n ∈ s.freed.map Packet.seqNumber

lemma inv_create : create.Inv where
  added := List.Perm.refl _
  freed _ hp := absurd hp List.not_mem_nil
  internal := rfl
  lastAck := rfl
  received _ hn := absurd hn (Finset.notMem_empty _)
  kept _ hn := absurd hn List.not_mem_nil

lemma Acknowledged.mono {s t : InFlightHistory} {n : ℕ} (h : s.Acknowledged n) (hacked : ∀ n ∈ s.acked, n ∈ t.acked)
    (hlast : s.lastAcks.foldr max 0 ≤ t.lastAcks.foldr max 0) : t.Acknowledged n :=
  h.imp (hacked n) fun hle => hle.trans hlast

lemma Inv.addQueue {s t : InFlightHistory} (hs : s.Inv) {ps : List OutgoingPacket} (hok : s.Fresh (.addQueue ps))
    (h : s.step (.addQueue ps) = some t) : t.Inv := by
  cases h
  obtain ⟨hsampled, hacks, hfree, hinternal⟩ := s.queue.addQueue_filter ps
  have hneed : ∀ p ∈ ps.filter OutgoingPacket.needAck, p.needAck = true := fun p hp => (List.mem_filter.mp hp).2
  obtain ⟨hperm, hfreed, hsub⟩ := InFlightQueue.addQueue_spec hneed hok.1
  obtain ⟨-, -, -, hlost⟩ := InFlightQueue.foldl_addPacket_acks
    (a := ⟨[], s.queue.receivedAcks, [], [], 0, 0⟩) hneed hok.1 fun _ hq => absurd hq List.not_mem_nil
  rw [← hsampled, ← hfree] at hperm
  rw [← hfree] at hfreed
  rw [← hacks] at hsub
  refine ⟨⟨?_, fun p hp => ?_, ?_⟩, hs.lastAck, fun n hn => hs.received n (hsub hn), fun n hn => ?_⟩
  · have hadded := List.perm_iff_count.mp hs.added
    have hcount := List.perm_iff_count.mp hperm
    refine List.perm_iff_count.mpr fun a => ?_
    have h1 := hadded a
    have h2 := hcount a
    simp only [List.count_append] at h1 h2 ⊢
    omega
  · rcases List.mem_append.mp hp with hp | hp
    · exact hs.freed p hp
    · exact Or.inl (hs.received _ (hfreed p hp))
  · dsimp only
    rw [hs.internal, hinternal]
  · simp only [List.map_append, List.mem_append]
    rcases hs.kept n hn with hn | hn | hn
    · rcases hlost n hn with hn | hn
      · exact Or.inl (hacks ▸ hn)
      · exact Or.inr (Or.inr (Or.inr (hfree ▸ hn)))
    · exact Or.inr (Or.inl hn)
    · exact Or.inr (Or.inr (Or.inl hn))

lemma Inv.addAcks {s t : InFlightHistory} (hs : s.Inv) {acks : List ℕ} (h : s.step (.addAcks acks) = some t) :
    t.Inv := by
  cases h
  refine ⟨⟨hs.added, fun p hp => (hs.freed p hp).mono (fun n hn => List.mem_append_left _ hn) le_rfl, hs.internal⟩,
    hs.lastAck, fun n hn => ?_, fun n hn => ?_⟩
  · simp only [InFlightQueue.addAcks, Finset.mem_union, List.mem_toFinset] at hn
    exact List.mem_append.mpr (hn.imp_left (hs.received n))
  · simp only [InFlightQueue.addAcks, Finset.mem_union, List.mem_toFinset]
    rcases List.mem_append.mp hn with hn | hn
    · exact (hs.kept n hn).imp_left Or.inl
    · exact Or.inl (Or.inr hn)

lemma Inv.setLastAck {s t : InFlightHistory} (hs : s.Inv) {lastAck : ℕ} (h : s.step (.setLastAck lastAck) = some t) :
    t.Inv := by
  cases h
  refine ⟨⟨hs.added, fun p hp => (hs.freed p hp).mono (fun n hn => hn) (le_max_right _ _), hs.internal⟩, ?_,
    hs.received, fun n hn => ?_⟩
  · simp only [InFlightQueue.setLastAck, List.foldr_cons, hs.lastAck, max_comm]
  · exact (hs.kept n hn).imp_right (Or.imp_left fun hle => hle.trans (le_max_left _ _))

lemma Inv.processAcks {s t : InFlightHistory} (hs : s.Inv) (h : s.step .processAcks = some t) : t.Inv := by
  cases h
  obtain ⟨hperm, hfreed, hsub⟩ := s.queue.processAcks_spec
  obtain ⟨-, hlost⟩ := InFlightQueue.processSamples_acks s.queue.lastAckNumber s.queue.samples s.queue.receivedAcks
  refine ⟨⟨?_, fun p hp => ?_, hs.internal⟩, hs.lastAck, fun n hn => hs.received n (hsub hn), fun n hn => ?_⟩
  · have hadded := List.perm_iff_count.mp hs.added
    have hcount := List.perm_iff_count.mp hperm
    refine List.perm_iff_count.mpr fun a => ?_
    have h1 := hadded a
    have h2 := hcount a
    simp only [List.count_append] at h1 h2 ⊢
    omega
  · rcases List.mem_append.mp hp with hp | hp
    · exact hs.freed p hp
    · rcases hfreed p hp with hle | hmem
      · exact Or.inr (hs.lastAck ▸ hle)
      · exact Or.inl (hs.received _ hmem)
  · simp only [List.map_append, List.mem_append]
    rcases hs.kept n hn with hn | hn | hn
    · rcases hlost n hn with hn | hn | hn
      · exact Or.inl hn
      · exact Or.inr (Or.inl hn)
      · exact Or.inr (Or.inr (Or.inr hn))
    · exact Or.inr (Or.inl hn)
    · exact Or.inr (Or.inr (Or.inl hn))

lemma Inv.checkTimeouts {s t : InFlightHistory} (hs : s.Inv) {now timeout : ℕ}
    (h : s.step (.checkTimeouts now timeout) = some t) : t.Inv := by
  cases h
  refine ⟨⟨?_, hs.freed, hs.internal⟩, hs.lastAck, hs.received, hs.kept⟩
  have hadded := List.perm_iff_count.mp hs.added
  have hcount := List.perm_iff_count.mp ((s.queue.checkTimeouts_perm now timeout).map OutgoingPacket.packet)
  refine List.perm_iff_count.mpr fun a => ?_
  have h1 := hadded a
  have h2 := hcount a
  simp only [List.map_append, List.count_append] at h1 h2 ⊢
  omega

lemma sampled_getAllPackets (q : InFlightQueue) : q.getAllPackets.2.sampled = [] := by
  simp [InFlightQueue.sampled, InFlightQueue.getAllPackets]

lemma Inv.getAllPackets {s t : InFlightHistory} (hs : s.Inv) (h : s.step .getAllPackets = some t) : t.Inv := by
  cases h
  refine ⟨⟨?_, hs.freed, hs.internal⟩, hs.lastAck, hs.received, hs.kept⟩
  have hadded := List.perm_iff_count.mp hs.added
  refine List.perm_iff_count.mpr fun a => ?_
  have h1 := hadded a
  have hall : s.queue.getAllPackets.1 = s.queue.sampled.map OutgoingPacket.packet := rfl
  simp only [sampled_getAllPackets, hall, List.map_nil, List.count_append, List.count_nil] at h1 ⊢
  omega

lemma inv_step (s : InFlightHistory) (a : Action) (t : InFlightHistory) (hs : s.Inv) (hok : s.Fresh a)
    (h : s.step a = some t) : t.Inv := by
  cases a with
  | addQueue ps => exact hs.addQueue hok h
  | addAcks acks => exact hs.addAcks h
  | setLastAck lastAck => exact hs.setLastAck h
  | processAcks => exact hs.processAcks h
  | checkTimeouts now timeout => exact hs.checkTimeouts h
  | getAllPackets => exact hs.getAllPackets h

def HandedBack (s t : InFlightHistory) (p : Packet) : Prop :=
  p ∈ t.timedOut.drop s.timedOut.length ∨ p ∈ t.gathered.drop s.gathered.length

structure Leaving (s t : InFlightHistory) (p : OutgoingPacket) : Prop where
  timedOut : s.timedOut.length ≤ t.timedOut.length
  gathered : s.gathered.length ≤ t.gathered.length
  place : p.packet ∈ t.freed ∨ (p ∈ t.queue.sampled ∧ p.seqNumber ≤ t.queue.lastAckNumber) ∨
    HandedBack s t p.packet

lemma mem_drop_append {l l' : List Packet} {p : Packet} {n : ℕ} (h : p ∈ l.drop n) : p ∈ (l ++ l').drop n := by
  rw [List.drop_append]
  exact List.mem_append_left _ h

lemma mem_drop_append_right {l l' : List Packet} {p : Packet} {n : ℕ} (hn : n ≤ l.length) (h : p ∈ l') :
    p ∈ (l ++ l').drop n := by
  rw [List.drop_append_of_le_length hn]
  exact List.mem_append_right _ h

lemma Leaving.step {s t u : InFlightHistory} {p : OutgoingPacket} (h : s.Leaving t p) {a : Action}
    (hstep : t.step a = some u) : s.Leaving u p := by
  obtain ⟨htimed, hgathered, hplace⟩ := h
  cases a with
  | addQueue ps =>
    cases hstep
    refine ⟨htimed, hgathered, hplace.imp (List.mem_append_left _) (Or.imp_left (And.imp_left fun hp => ?_))⟩
    simp only [InFlightQueue.sampled, InFlightQueue.addQueue, List.flatMap_append]
    exact List.mem_append_left _ hp
  | addAcks acks =>
    cases hstep
    exact ⟨htimed, hgathered, hplace⟩
  | setLastAck lastAck =>
    cases hstep
    exact ⟨htimed, hgathered, hplace.imp_right (Or.imp_left (And.imp_right fun hle => hle.trans (le_max_left _ _)))⟩
  | processAcks =>
    cases hstep
    refine ⟨htimed, hgathered, ?_⟩
    rcases hplace with hfreed | ⟨hp, hle⟩ | hback
    · exact Or.inl (List.mem_append_left _ hfreed)
    · apply Or.inl
      exact List.mem_append_right _ ((InFlightQueue.processSamples_acks _ _ _).1 p hp hle)
    · exact Or.inr (Or.inr hback)
  | checkTimeouts now timeout =>
    cases hstep
    refine ⟨by simp only [List.length_append]; omega, hgathered, hplace.imp_right ?_⟩
    rintro (⟨hp, hle⟩ | hback)
    · rcases List.mem_append.mp ((t.queue.checkTimeouts_perm now timeout).mem_iff.mpr hp) with hp | hp
      · exact Or.inl ⟨hp, hle⟩
      · exact Or.inr (Or.inl (mem_drop_append_right htimed (List.mem_map_of_mem hp)))
    · exact Or.inr (hback.imp_left mem_drop_append)
  | getAllPackets =>
    cases hstep
    refine ⟨htimed, by simp only [List.length_append]; omega, hplace.imp_right ?_⟩
    rintro (⟨hp, -⟩ | hback)
    · exact Or.inr (Or.inr (mem_drop_append_right hgathered (List.mem_map_of_mem hp)))
    · exact Or.inr (hback.imp_right mem_drop_append)

def first : OutgoingPacket := ⟨{ Packet.ofPayload [7] with seqNumber := 1 }, true, 0⟩

def early : List Action := [.addAcks [1], .addQueue [first], .processAcks]

end InFlightHistory

end FastTransport.Protocol
