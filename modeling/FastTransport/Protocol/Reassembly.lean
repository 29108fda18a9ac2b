import FastTransport.Lib.Runs
import FastTransport.Protocol.RecvQueue

/-! A receive queue with the history of its calls: what was passed to it, what came back, what was stored, and
which numbers were given out to be acknowledged. -/

namespace FastTransport.Protocol

open Lib.Runs

structure Reassembly where
  queue : RecvQueue
  passed : List Packet
  returned : List Packet
  accepted : List Packet
  acked : List ℕ

namespace Reassembly

def create : Reassembly := ⟨RecvQueue.create, [], [], [], []⟩

inductive Action
  | addPacket (packet : Packet)
  | proccessUnorderedPackets
  | getSelectiveAcks

def step (s : Reassembly) : Action → Option Reassembly
  | .addPacket packet =>
    (s.queue.addPacket packet).map fun r =>
      { s with
        queue := r.2
        passed := s.passed ++ [packet]
        returned := s.returned ++ r.1.2.toList
        accepted := if r.1.1 = .new then s.accepted ++ [packet] else s.accepted }
  | .proccessUnorderedPackets => s.queue.proccessUnorderedPackets.map fun q => { s with queue := q }
  | .getSelectiveAcks =>
    some { s with queue := s.queue.getSelectiveAcks.2, acked := s.acked ++ s.queue.getSelectiveAcks.1 }

def acks (s : Reassembly) : List ℕ := s.acked ++ s.queue.selectiveAcks

structure Reassembled (s : Reassembly) : Prop where
  slot : ∀ k p, s.queue.queue k = some p → p.seqNumber % RecvQueue.queueSize = k ∧
    s.queue.beginFullRecievedAck ≤ p.seqNumber ∧
      p.seqNumber < s.queue.beginFullRecievedAck + RecvQueue.queueSize
  delivered : s.queue.data.map Packet.seqNumber = List.range' 1 (s.queue.beginFullRecievedAck - 1)
  first : ∀ p ∈ s.queue.data, s.accepted.find? (fun a => a.seqNumber = p.seqNumber) = some p
  acks : ∀ n ∈ s.acks, 1 ≤ n → ∃ p ∈ s.accepted, p.seqNumber = n
  conserved : s.passed.Perm (s.returned ++ s.accepted)
  kept : ∀ p ∈ s.accepted, p ∈ s.queue.data ∨ s.queue.queue (p.seqNumber % RecvQueue.queueSize) = some p

structure Inv (s : Reassembly) : Prop where
  queue : s.queue.Inv
  delivered : s.queue.data.map Packet.seqNumber = List.range' 1 (s.queue.beginFullRecievedAck - 1)
  nodup : (s.accepted.map Packet.seqNumber).Nodup
  data : ∀ p ∈ s.queue.data, p ∈ s.accepted
  stored : ∀ k p, s.queue.queue k = some p → p ∈ s.accepted
  acks : ∀ n ∈ s.acks, s.queue.Received n
  conserved : s.passed.Perm (s.returned ++ s.accepted)
  kept : ∀ p ∈ s.accepted, p ∈ s.queue.data ∨ s.queue.queue (p.seqNumber % RecvQueue.queueSize) = some p

lemma Inv.delivered_iff {s : Reassembly} (hs : s.Inv) (n : ℕ) :
    (∃ p ∈ s.queue.data, p.seqNumber = n) ↔ 1 ≤ n ∧ n < s.queue.beginFullRecievedAck := by
  have hmem : n ∈ s.queue.data.map Packet.seqNumber ↔ 1 ≤ n ∧ n < 1 + (s.queue.beginFullRecievedAck - 1) := by
    rw [hs.delivered, List.mem_range'_1]
  have hbegin := hs.queue.begin_pos
  rw [← List.mem_map, hmem]
  omega

lemma Inv.notMem_accepted {s : Reassembly} (hs : s.Inv) {n : ℕ} (hn : s.queue.beginFullRecievedAck ≤ n)
    (hslot : s.queue.queue (n % RecvQueue.queueSize) = none) : n ∉ s.accepted.map Packet.seqNumber := by
  intro hmem
  obtain ⟨p, hp, rfl⟩ := List.mem_map.mp hmem
  rcases hs.kept p hp with hdata | hstored
  · exact absurd ((hs.delivered_iff _).mp ⟨p, hdata, rfl⟩).2 (by omega)
  · rw [hslot] at hstored
    cases hstored

lemma Inv.reassembled {s : Reassembly} (hs : s.Inv) : s.Reassembled := by
  refine ⟨hs.queue.slot, hs.delivered, fun p hp => ?_, fun n hn hpos => ?_, hs.conserved, hs.kept⟩
  · obtain ⟨l₁, l₂, hsplit⟩ := List.append_of_mem (hs.data p hp)
    have hnd := hs.nodup
    rw [hsplit, List.map_append, List.map_cons] at hnd
    have hnot : p.seqNumber ∉ l₁.map Packet.seqNumber := fun hmem =>
      List.disjoint_of_nodup_append hnd hmem List.mem_cons_self
    rw [hsplit, List.find?_append, List.find?_cons_of_pos (by simp), List.find?_eq_none.mpr, Option.none_or]
    intro a ha heq
    apply hnot
    rw [← of_decide_eq_true heq]
    exact List.mem_map_of_mem ha
  · rcases hs.acks n hn with hlt | ⟨p, hp, heq⟩
    · obtain ⟨p, hp, heq⟩ := (hs.delivered_iff n).mpr ⟨hpos, hlt⟩
      exact ⟨p, hs.data p hp, heq⟩
    · exact ⟨p, hs.stored _ p hp, heq⟩

lemma inv_create : create.Inv :=
  ⟨RecvQueue.inv_create, rfl, List.nodup_nil, fun _ hp => absurd hp List.not_mem_nil, fun _ _ h => (by cases h),
    fun _ hn => absurd hn List.not_mem_nil, List.Perm.refl _, fun _ hp => absurd hp List.not_mem_nil⟩

lemma Inv.takeNext {s : Reassembly} (hs : s.Inv) {p : Packet}
    (hp : s.queue.queue (s.queue.beginFullRecievedAck % RecvQueue.queueSize) = some p) :
    Inv { s with queue := s.queue.takeNext p } := by
  have hbegin := hs.queue.begin_pos
  have hnumber := RecvQueue.next_seqNumber hs.queue hp
  refine ⟨RecvQueue.takeNext_inv hs.queue p, ?_, hs.nodup, fun a ha => ?_, fun k a ha => ?_,
    fun n hn => RecvQueue.takeNext_received hs.queue hp (hs.acks n hn), hs.conserved, fun a ha => ?_⟩
  · have hsucc : s.queue.beginFullRecievedAck + 1 - 1 = s.queue.beginFullRecievedAck - 1 + 1 := by omega
    have hlast : 1 + 1 * (s.queue.beginFullRecievedAck - 1) = s.queue.beginFullRecievedAck := by omega
    simp only [RecvQueue.takeNext, List.map_append, List.map_cons, List.map_nil, hs.delivered, hsucc,
      List.range'_concat, hlast, hnumber]
  · rcases List.mem_append.mp ha with ha | ha
    · exact hs.data a ha
    · exact List.mem_singleton.mp ha ▸ hs.stored _ p hp
  · simp only [RecvQueue.takeNext] at ha
    by_cases hk : k = s.queue.beginFullRecievedAck % RecvQueue.queueSize
    · rw [hk, Function.update_self] at ha
      cases ha
    · rw [Function.update_of_ne hk] at ha
      exact hs.stored k a ha
  · simp only [RecvQueue.takeNext]
    rcases hs.kept a ha with hdata | hstored
    · exact Or.inl (List.mem_append_left _ hdata)
    · by_cases hk : a.seqNumber % RecvQueue.queueSize = s.queue.beginFullRecievedAck % RecvQueue.queueSize
      · rw [hk, hp] at hstored
        cases hstored
        exact Or.inl (List.mem_append_right _ (List.mem_singleton_self _))
      · exact Or.inr (by rw [Function.update_of_ne hk, hstored])

lemma Inv.proccessUnorderedPackets {s : Reassembly} (hs : s.Inv) {q : RecvQueue}
    (h : s.queue.proccessUnorderedPackets = some q) : Inv { s with queue := q } := by
  apply RecvQueue.proccessLoop_induction (P := fun q => Inv { s with queue := q }) _ hs h
  intro q p hq hp _
  exact Inv.takeNext hq hp

lemma Inv.getSelectiveAcks {s : Reassembly} (hs : s.Inv) :
    Inv { s with queue := s.queue.getSelectiveAcks.2, acked := s.acked ++ s.queue.getSelectiveAcks.1 } := by
  refine ⟨⟨hs.queue.begin_pos, hs.queue.slot⟩, hs.delivered, hs.nodup, hs.data, hs.stored, fun n hn => ?_,
    hs.conserved, hs.kept⟩
  apply hs.acks n
  simpa [Reassembly.acks, RecvQueue.getSelectiveAcks] using hn

lemma Inv.returned {s : Reassembly} (hs : s.Inv) {p : Packet} {acks : List ℕ}
    (hacks : ∀ n ∈ acks, n ∈ s.queue.selectiveAcks ∨ s.queue.Received n) :
    Inv { s with queue := { s.queue with selectiveAcks := acks }, passed := s.passed ++ [p],
                 returned := s.returned ++ [p] } := by
  refine ⟨⟨hs.queue.begin_pos, hs.queue.slot⟩, hs.delivered, hs.nodup, hs.data, hs.stored, fun n hn => ?_, ?_,
    hs.kept⟩
  · rcases List.mem_append.mp hn with hn | hn
    · exact hs.acks n (List.mem_append_left _ hn)
    · rcases hacks n hn with hn | hn
      · exact hs.acks n (List.mem_append_right _ hn)
      · exact hn
  · apply (List.perm_append_comm.trans (hs.conserved.cons p)).trans
    rw [List.append_assoc]
    exact List.perm_middle.symm

lemma Inv.stores {s : Reassembly} (hs : s.Inv) {p : Packet} (hlo : s.queue.beginFullRecievedAck ≤ p.seqNumber)
    (hslot : s.queue.queue (p.seqNumber % RecvQueue.queueSize) = none) {r : RecvQueueStatus × Option Packet}
    (h : s.queue.addPacket p = some (r, { s.queue with
      selectiveAcks := s.queue.selectiveAcks ++ [p.seqNumber]
      queue := Function.update s.queue.queue (p.seqNumber % RecvQueue.queueSize) (some p) })) :
    Inv { s with queue := { s.queue with
                   selectiveAcks := s.queue.selectiveAcks ++ [p.seqNumber]
                   queue := Function.update s.queue.queue (p.seqNumber % RecvQueue.queueSize) (some p) },
                 passed := s.passed ++ [p], accepted := s.accepted ++ [p] } := by
  have hnew := hs.notMem_accepted hlo hslot
  refine ⟨RecvQueue.addPacket_inv hs.queue h, hs.delivered, ?_, fun a ha => List.mem_append_left _ (hs.data a ha),
    fun k a ha => ?_, fun n hn => ?_, ?_, fun a ha => ?_⟩
  · rw [List.map_append, List.nodup_append]
    refine ⟨hs.nodup, List.nodup_singleton _, fun n hn m hm heq => hnew ?_⟩
    rw [List.map_singleton, List.mem_singleton] at hm
    rw [← hm, ← heq]
    exact hn
  · dsimp only at ha
    by_cases hk : k = p.seqNumber % RecvQueue.queueSize
    · rw [hk, Function.update_self] at ha
      cases ha
      exact List.mem_append_right _ (List.mem_singleton_self _)
    · rw [Function.update_of_ne hk] at ha
      exact List.mem_append_left _ (hs.stored k a ha)
  · simp only [Reassembly.acks, ← List.append_assoc, List.mem_append, List.mem_singleton] at hn
    rcases hn with hn | rfl
    · exact RecvQueue.addPacket_received h (hs.acks n (List.mem_append.mpr hn))
    · exact Or.inr ⟨p, Function.update_self .., rfl⟩
  · rw [← List.append_assoc]
    exact hs.conserved.append_right [p]
  · rcases List.mem_append.mp ha with ha | ha
    · refine (hs.kept a ha).imp_right fun hstored => ?_
      have hne : a.seqNumber % RecvQueue.queueSize ≠ p.seqNumber % RecvQueue.queueSize := by
        intro heq
        rw [heq, hslot] at hstored
        cases hstored
      dsimp only
      rw [Function.update_of_ne hne, hstored]
    · rw [List.mem_singleton.mp ha]
      exact Or.inr (Function.update_self ..)

lemma Inv.addPacket {s t : Reassembly} (hs : s.Inv) {p : Packet} (h : s.step (.addPacket p) = some t) : t.Inv := by
  obtain ⟨⟨r, q⟩, hr, rfl⟩ := Option.map_eq_some_iff.mp h
  have hadd := hr
  simp only [RecvQueue.addPacket] at hr
  split_ifs at hr with h1 h2 h3 h4 <;> cases hr
  · apply hs.returned
    intro n hn
    rcases List.mem_append.mp hn with hn | hn
    · exact Or.inl hn
    · exact Or.inr (Or.inl (List.mem_singleton.mp hn ▸ h2))
  · exact hs.returned fun n hn => Or.inl hn
  · obtain ⟨stored, hstored⟩ := Option.isSome_iff_exists.mp h4
    obtain ⟨hslot, hlo, hhi⟩ := hs.queue.slot _ _ hstored
    have hnumber : stored.seqNumber = p.seqNumber :=
      RecvQueue.mod_window hslot hlo hhi (by omega) (by omega)
    apply hs.returned
    intro n hn
    rcases List.mem_append.mp hn with hn | hn
    · exact Or.inl hn
    · rw [List.mem_singleton.mp hn]
      exact Or.inr (Or.inr ⟨stored, hstored, hnumber⟩)
  · have hnone : s.queue.queue (p.seqNumber % RecvQueue.queueSize) = none := by simpa using h4
    have hstores := hs.stores (by omega) hnone hadd
    simpa using hstores

lemma inv_step (s : Reassembly) (a : Action) (t : Reassembly) (hs : s.Inv) (h : s.step a = some t) : t.Inv := by
  cases a with
  | addPacket p => exact hs.addPacket h
  | proccessUnorderedPackets =>
    obtain ⟨q, hq, rfl⟩ := Option.map_eq_some_iff.mp h
    exact hs.proccessUnorderedPackets hq
  | getSelectiveAcks =>
    cases h
    exact hs.getSelectiveAcks

theorem packets_reassembled {actions : List Action} {s : Reassembly} (h : run step create actions = some s) :
    s.Reassembled :=
  (run_invariant inv_step inv_create h).reassembled

def swapped : List Action :=
  [.addPacket { Packet.ofPayload [2] with seqNumber := 2 }, .proccessUnorderedPackets,
    .addPacket { Packet.ofPayload [1] with seqNumber := 1 }, .proccessUnorderedPackets, .getSelectiveAcks,
    .addPacket { Packet.ofPayload [1] with seqNumber := 1 }]

theorem packets_reassembled_swapped : ∃ s, run step create swapped = some s ∧
    s.queue.data.map Packet.payload = [[1], [2]] ∧ s.acks = [2, 1, 1] ∧ s.Reassembled := by
  refine ⟨_, rfl, ?_, ?_, @packets_reassembled swapped _ rfl⟩
  · rfl
  · rfl

end Reassembly

end FastTransport.Protocol
