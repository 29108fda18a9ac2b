import FastTransport.Lib.Runs
import FastTransport.Protocol.SendQueue

/-! Runs of the send queue's operations: what was handed in, what came out, and in which order. -/

namespace FastTransport.Protocol

open Lib.Runs Lib.Lists

namespace SendQueue

lemma popHeap_eq_none {ps : List OutgoingPacket} (h : popHeap ps = none) : ps = [] := by
  cases ps with
  | nil => rfl
  | cons p ps =>
    simp only [popHeap] at h
    split at h
    · cases h
    · split_ifs at h

lemma popHeap_le {ps rest : List OutgoingPacket} {p : OutgoingPacket} (h : popHeap ps = some (p, rest)) :
    ∀ q ∈ ps, p.seqNumber ≤ q.seqNumber := by
  induction ps generalizing p rest with
  | nil => cases h
  | cons q ps ih =>
    simp only [popHeap] at h
    split at h
    · rename_i hm
      cases h
      have he := popHeap_eq_none hm
      subst he
      simp
    · rename_i m left hm
      have hle := ih hm
      split_ifs at h with hlt
      · cases h
        exact List.forall_mem_cons.mpr ⟨hlt.le, hle⟩
      · cases h
        exact List.forall_mem_cons.mpr ⟨le_rfl, fun x hx => (not_lt.mp hlt).trans (hle x hx)⟩

lemma popResend_length (size : ℕ) (ps : List OutgoingPacket) :
    (popResend size ps).1.length = min size ps.length := by
  induction size generalizing ps with
  | zero => simp [popResend]
  | succ size ih =>
    simp only [popResend]
    split
    · rename_i hm
      simp [popHeap_eq_none hm]
    · rename_i p rest hm
      have hl := (popHeap_perm hm).length_eq
      simp only [List.length_cons] at hl ⊢
      have hr := ih rest
      omega

lemma popResend_le (size : ℕ) (ps : List OutgoingPacket) :
    ∀ p ∈ (popResend size ps).1, ∀ q ∈ (popResend size ps).2, p.seqNumber ≤ q.seqNumber := by
  induction size generalizing ps with
  | zero => simp [popResend]
  | succ size ih =>
    simp only [popResend]
    split
    · simp
    · rename_i p rest hm
      have hsub : ∀ q ∈ (popResend size rest).2, q ∈ ps := fun q hq => by
        have hr := (popResend_perm size rest).mem_iff.mp (List.mem_append_right _ hq)
        exact (popHeap_perm hm).mem_iff.mp (List.mem_cons_of_mem p hr)
      intro p' hp' q hq
      rcases List.mem_cons.mp hp' with rfl | hp'
      · exact popHeap_le hm q (hsub q hq)
      · exact ih rest p' hp' q hq

lemma popResend_sorted (size : ℕ) (ps : List OutgoingPacket) :
    (popResend size ps).1.Pairwise fun p q => p.seqNumber ≤ q.seqNumber := by
  induction size generalizing ps with
  | zero => simp [popResend]
  | succ size ih =>
    simp only [popResend]
    split
    · simp
    · rename_i p rest hm
      apply List.pairwise_cons.mpr
      refine ⟨fun q hq => popHeap_le hm q ?_, ih rest⟩
      have hr := (popResend_perm size rest).mem_iff.mp (List.mem_append_left _ hq)
      exact (popHeap_perm hm).mem_iff.mp (List.mem_cons_of_mem p hr)

def pending (q : SendQueue) : List OutgoingPacket := q.resendPackets ++ q.needToSend

structure InOrder (q : SendQueue) (size : ℕ) (packets : List OutgoingPacket) (left : SendQueue) : Prop where
  length : packets.length = min size q.pending.length
  resend : (packets.take q.resendPackets.length ++ left.resendPackets).Perm q.resendPackets
  ascending : (packets.take q.resendPackets.length).Pairwise fun p p' => p.seqNumber ≤ p'.seqNumber
  least : ∀ p ∈ packets.take q.resendPackets.length, ∀ p' ∈ left.resendPackets, p.seqNumber ≤ p'.seqNumber
  fresh : packets.drop q.resendPackets.length ++ left.needToSend = q.needToSend
  service : left.serviceNeedToSend = q.serviceNeedToSend
  number : left.nextPacketNumber = q.nextPacketNumber

lemma take_drop_popResend (q : SendQueue) (size : ℕ) :
    (q.getPacketsToSend size).1.take q.resendPackets.length = (popResend size q.resendPackets).1 ∧
      (q.getPacketsToSend size).1.drop q.resendPackets.length =
        q.needToSend.take (size - q.resendPackets.length) := by
  have hl := popResend_length size q.resendPackets
  by_cases hs : size ≤ q.resendPackets.length
  · have hz : size - (popResend size q.resendPackets).1.length = 0 := by omega
    simp only [getPacketsToSend, hz, List.take_zero, List.append_nil]
    refine ⟨List.take_of_length_le (by omega), ?_⟩
    rw [List.drop_of_length_le (by omega), Nat.sub_eq_zero_of_le hs, List.take_zero]
  · have hr : (popResend size q.resendPackets).1.length = q.resendPackets.length := by omega
    simp only [getPacketsToSend, hr]
    exact ⟨List.take_left' hr, List.drop_left' hr⟩

theorem getPacketsToSend_inOrder (q : SendQueue) (size : ℕ) :
    InOrder q size (q.getPacketsToSend size).1 (q.getPacketsToSend size).2 := by
  have hl := popResend_length size q.resendPackets
  obtain ⟨htake, hdrop⟩ := q.take_drop_popResend size
  refine ⟨?_, ?_, ?_, ?_, ?_, rfl, rfl⟩
  · simp only [getPacketsToSend, pending, List.length_append, List.length_take]
    omega
  · rw [htake]
    exact popResend_perm size q.resendPackets
  · rw [htake]
    exact popResend_sorted size q.resendPackets
  · rw [htake]
    exact popResend_le size q.resendPackets
  · have hsub : size - (popResend size q.resendPackets).1.length = size - q.resendPackets.length := by omega
    rw [hdrop]
    simp only [getPacketsToSend, hsub, List.take_append_drop]

end SendQueue

def numbered (packets : List Packet) : List OutgoingPacket :=
  packets.mapIdx fun i p => ⟨{ p with seqNumber := (i + 1) % seqLimit }, true, 0⟩

def unnumbered (packets : List Packet) : List OutgoingPacket :=
  packets.map fun p => ⟨{ p with seqNumber := seqLimit - 1 }, false, 0⟩

structure SendHistory where
  queue : SendQueue
  submitted : List Packet
  serviced : List Packet
  resubmitted : List OutgoingPacket
  sent : List OutgoingPacket
  fresh : List OutgoingPacket
  resent : List OutgoingPacket
  serviceSent : List OutgoingPacket

namespace SendHistory

def initial : SendHistory := ⟨SendQueue.create, [], [], [], [], [], [], []⟩

inductive Action
  | sendPackets (packets : List Packet) (needAck : Bool)
  | reSendPackets (packets : List OutgoingPacket)
  | getPacketsToSend (size : ℕ)
  | getServicePacketsToSend

/-- The part of a result up to the number of pending resend packets is `resent`, the rest `fresh`. -/
def step (s : SendHistory) : Action → Option SendHistory
  | .sendPackets packets true =>
    some { s with queue := s.queue.sendPackets packets true, submitted := s.submitted ++ packets }
  | .sendPackets packets false =>
    some { s with queue := s.queue.sendPackets packets false, serviced := s.serviced ++ packets }
  | .reSendPackets packets =>
    some { s with queue := s.queue.reSendPackets packets, resubmitted := s.resubmitted ++ packets }
  | .getPacketsToSend size =>
    let r := s.queue.getPacketsToSend size
    some { s with queue := r.2
                  sent := s.sent ++ r.1
                  resent := s.resent ++ r.1.take s.queue.resendPackets.length
                  fresh := s.fresh ++ r.1.drop s.queue.resendPackets.length }
  | .getServicePacketsToSend =>
    let r := s.queue.getServicePacketsToSend
    some { s with queue := r.2, serviceSent := s.serviceSent ++ r.1 }

structure Conserved (s : SendHistory) : Prop where
  number : s.queue.nextPacketNumber = s.submitted.length % seqLimit
  fresh : s.fresh ++ s.queue.needToSend = numbered s.submitted
  resent : (s.resent ++ s.queue.resendPackets).Perm s.resubmitted
  service : s.serviceSent ++ s.queue.serviceNeedToSend = unnumbered s.serviced
  sent : s.sent.Perm (s.resent ++ s.fresh)

lemma numbered_append (ps : List Packet) (p : Packet) :
    numbered (ps ++ [p]) = numbered ps ++ [⟨{ p with seqNumber := (ps.length + 1) % seqLimit }, true, 0⟩] := by
  simp [numbered, List.mapIdx_append]

lemma sendPackets_numbered (q : SendQueue) (before packets : List Packet)
    (hn : q.nextPacketNumber = before.length % seqLimit) {sent : List OutgoingPacket}
    (hs : sent ++ q.needToSend = numbered before) :
    (q.sendPackets packets true).nextPacketNumber = (before ++ packets).length % seqLimit ∧
      sent ++ (q.sendPackets packets true).needToSend = numbered (before ++ packets) ∧
      (q.sendPackets packets true).resendPackets = q.resendPackets ∧
      (q.sendPackets packets true).serviceNeedToSend = q.serviceNeedToSend := by
  induction packets generalizing q before with
  | nil => simpa [SendQueue.sendPackets] using ⟨hn, hs⟩
  | cons p packets ih =>
    have hmod : (q.nextPacketNumber + 1) % seqLimit = (before.length + 1) % seqLimit := by
      rw [hn, Nat.mod_add_mod]
    have hr := ih (SendQueue.sendPacket true q p) (before ++ [p])
      (by simp [SendQueue.sendPacket, hmod])
      (by simp [SendQueue.sendPacket, hmod, numbered_append, ← hs])
    rw [List.append_assoc, List.singleton_append] at hr
    exact hr

lemma sendPackets_unnumbered (q : SendQueue) (packets : List Packet) :
    q.sendPackets packets false = { q with serviceNeedToSend := q.serviceNeedToSend ++ unnumbered packets } := by
  induction packets generalizing q with
  | nil => simp [SendQueue.sendPackets, unnumbered]
  | cons p packets ih =>
    rw [SendQueue.sendPackets, List.foldl_cons]
    refine (ih _).trans ?_
    simp [SendQueue.sendPacket, unnumbered]

lemma conserved_initial : initial.Conserved :=
  ⟨rfl, rfl, List.Perm.refl _, rfl, List.Perm.refl _⟩

lemma step_conserved (s : SendHistory) (a : Action) (t : SendHistory) (hs : s.Conserved)
    (h : s.step a = some t) : t.Conserved := by
  cases a with
  | sendPackets packets needAck =>
    cases needAck with
    | true =>
      cases h
      obtain ⟨hnumber, hfresh, hresend, hservice⟩ :=
        sendPackets_numbered s.queue s.submitted packets hs.number hs.fresh
      refine ⟨hnumber, hfresh, ?_, ?_, hs.sent⟩
      · simpa only [hresend] using hs.resent
      · simpa only [hservice] using hs.service
    | false =>
      cases h
      refine ⟨?_, ?_, ?_, ?_, hs.sent⟩ <;> dsimp only <;> rw [sendPackets_unnumbered]
      · exact hs.number
      · exact hs.fresh
      · exact hs.resent
      · simp only [← List.append_assoc, hs.service, unnumbered, List.map_append]
  | reSendPackets packets =>
    cases h
    refine ⟨hs.number, hs.fresh, ?_, hs.service, hs.sent⟩
    simpa only [SendQueue.reSendPackets, List.append_assoc] using hs.resent.append_right packets
  | getPacketsToSend size =>
    cases h
    have hr := s.queue.getPacketsToSend_inOrder size
    refine ⟨?_, ?_, ?_, ?_, ?_⟩
    · exact hr.number.trans hs.number
    · exact (List.append_assoc _ _ _).trans ((congrArg _ hr.fresh).trans hs.fresh)
    · exact (List.Perm.of_eq (List.append_assoc _ _ _)).trans ((hr.resend.append_left _).trans hs.resent)
    · exact (congrArg _ hr.service).trans hs.service
    · have hcut := List.take_append_drop s.queue.resendPackets.length (s.queue.getPacketsToSend size).1
      exact (hs.sent.append (List.Perm.of_eq hcut.symm)).trans (append_middle_perm _ _ _ _)
  | getServicePacketsToSend =>
    cases h
    refine ⟨hs.number, hs.fresh, hs.resent, ?_, hs.sent⟩
    simpa only [SendQueue.getServicePacketsToSend, List.append_nil] using hs.service

lemma Conserved.pending {s : SendHistory} (hs : s.Conserved) :
    (s.sent ++ s.queue.pending).Perm (s.resubmitted ++ numbered s.submitted) := by
  refine (hs.sent.append_right _).trans ((append_middle_perm _ _ _ _).trans ?_)
  rw [hs.fresh]
  exact hs.resent.append_right _

lemma Conserved.needAck {s : SendHistory} (hs : s.Conserved) {p : OutgoingPacket} (hp : p ∈ s.sent)
    (hack : p.needAck = false) : p ∈ s.resubmitted := by
  rcases List.mem_append.mp (hs.sent.mem_iff.mp hp) with hp | hp
  · exact hs.resent.mem_iff.mp (List.mem_append_left _ hp)
  · have hn : p ∈ numbered s.submitted := hs.fresh ▸ List.mem_append_left _ hp
    obtain ⟨i, hi, rfl⟩ := List.mem_mapIdx.mp hn
    cases hack

theorem sent_in_order {as : List Action} {s : SendHistory} (h : run step initial as = some s) :
    s.Conserved ∧ (s.sent ++ s.queue.pending).Perm (s.resubmitted ++ numbered s.submitted) ∧
      (∀ p ∈ s.sent, p.needAck = false → p ∈ s.resubmitted) ∧
      ∀ size, s.queue.InOrder size (s.queue.getPacketsToSend size).1 (s.queue.getPacketsToSend size).2 := by
  have hs := run_invariant step_conserved conserved_initial h
  exact ⟨hs, hs.pending, fun p hp hack => hs.needAck hp hack, s.queue.getPacketsToSend_inOrder⟩

theorem sent_in_order_resend : ∃ s : SendHistory,
    (s.Conserved ∧ (s.sent ++ s.queue.pending).Perm (s.resubmitted ++ numbered s.submitted) ∧
      (∀ p ∈ s.sent, p.needAck = false → p ∈ s.resubmitted) ∧
      ∀ size, s.queue.InOrder size (s.queue.getPacketsToSend size).1 (s.queue.getPacketsToSend size).2) ∧
      s.sent.map OutgoingPacket.seqNumber = [1, 2, 1, 2, 3] := by
  let p := Packet.ofPayload [7]
  let again (n : ℕ) : OutgoingPacket := ⟨{ p with seqNumber := n }, true, 5⟩
  have hrun : run step initial [.sendPackets [p, p] true, .sendPackets [p] false, .getPacketsToSend 4,
      .reSendPackets [again 2, again 1], .sendPackets [p] true, .getServicePacketsToSend,
      .getPacketsToSend 2, .getPacketsToSend 5] = some _ := rfl
  exact ⟨_, sent_in_order hrun, rfl⟩

end SendHistory

end FastTransport.Protocol
