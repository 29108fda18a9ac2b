import FastTransport.Lib.Lists
import FastTransport.Protocol.Packet

/-! `SendQueue`: numbered new packets, the packets to send again, and service packets. -/

namespace FastTransport.Protocol

open Lib.Lists

structure OutgoingPacket where
  packet : Packet
  needAck : Bool
  sendTime : ℕ
  deriving DecidableEq, Repr

def OutgoingPacket.seqNumber (p : OutgoingPacket) : ℕ := p.packet.seqNumber

structure SendQueue where
  resendPackets : List OutgoingPacket
  needToSend : List OutgoingPacket
  serviceNeedToSend : List OutgoingPacket
  nextPacketNumber : ℕ
  deriving DecidableEq, Repr

namespace SendQueue

def create : SendQueue := ⟨[], [], [], 0⟩

def sendPacket (needAck : Bool) (q : SendQueue) (packet : Packet) : SendQueue :=
  if needAck then
    let number := (q.nextPacketNumber + 1) % seqLimit
    { q with nextPacketNumber := number
             needToSend := q.needToSend ++ [⟨{ packet with seqNumber := number }, true, 0⟩] }
  else
    { q with serviceNeedToSend :=
        q.serviceNeedToSend ++ [⟨{ packet with seqNumber := seqLimit - 1 }, false, 0⟩] }

def sendPackets (q : SendQueue) (packets : List Packet) (needAck : Bool) : SendQueue :=
  packets.foldl (sendPacket needAck) q

def reSendPackets (q : SendQueue) (packets : List OutgoingPacket) : SendQueue :=
  { q with resendPackets := q.resendPackets ++ packets }

def popHeap : List OutgoingPacket → Option (OutgoingPacket × List OutgoingPacket)
  | [] => none
  | p :: ps =>
    match popHeap ps with
    | none => some (p, [])
    | some (m, rest) => if m.seqNumber < p.seqNumber then some (m, p :: rest) else some (p, ps)

def popResend : ℕ → List OutgoingPacket → List OutgoingPacket × List OutgoingPacket
  | 0, resend => ([], resend)
  | size + 1, resend =>
    match popHeap resend with
    | none => ([], resend)
    | some (p, rest) => (p :: (popResend size rest).1, (popResend size rest).2)

def getPacketsToSend (q : SendQueue) (size : ℕ) : List OutgoingPacket × SendQueue :=
  let resend := popResend size q.resendPackets
  let left := size - resend.1.length
  (resend.1 ++ q.needToSend.take left,
    { q with resendPackets := resend.2, needToSend := q.needToSend.drop left })

def getServicePacketsToSend (q : SendQueue) : List OutgoingPacket × SendQueue :=
  (q.serviceNeedToSend, { q with serviceNeedToSend := [] })

lemma popHeap_perm {ps rest : List OutgoingPacket} {p : OutgoingPacket}
    (h : popHeap ps = some (p, rest)) : (p :: rest).Perm ps := by
  induction ps generalizing p rest with
  | nil => cases h
  | cons q ps ih =>
    rw [popHeap] at h
    match hm : popHeap ps with
    | none =>
      rw [hm] at h
      cases h
      cases ps with
      | nil => exact List.Perm.refl _
      | cons q' ps =>
        rw [popHeap] at hm
        split at hm
        · cases hm
        · split_ifs at hm
    | some (m, left) =>
      simp only [hm] at h
      split_ifs at h
      · cases h
        exact (List.Perm.swap _ _ _).trans ((ih hm).cons q)
      · cases h
        exact List.Perm.refl _

lemma popResend_perm (size : ℕ) (ps : List OutgoingPacket) :
    ((popResend size ps).1 ++ (popResend size ps).2).Perm ps := by
  induction size generalizing ps with
  | zero => exact List.Perm.refl _
  | succ size ih =>
    rw [popResend]
    match hm : popHeap ps with
    | none => exact List.Perm.refl _
    | some (p, rest) => exact ((ih rest).cons p).trans (popHeap_perm hm)

lemma getPacketsToSend_perm (q : SendQueue) (size : ℕ) :
    ((q.getPacketsToSend size).1 ++ ((q.getPacketsToSend size).2.resendPackets ++
      (q.getPacketsToSend size).2.needToSend)).Perm (q.resendPackets ++ q.needToSend) := by
  have hr := popResend_perm size q.resendPackets
  have hn := List.take_append_drop (size - (popResend size q.resendPackets).1.length) q.needToSend
  exact (append_middle_perm _ _ _ _).trans ((hr.append_right _).trans (List.Perm.of_eq (congrArg _ hn)))

def queued (q : SendQueue) : List OutgoingPacket := q.resendPackets ++ q.needToSend ++ q.serviceNeedToSend

lemma sendPacket_queued_mem {q : SendQueue} {needAck : Bool} {packet : Packet} {p : OutgoingPacket}
    (h : p ∈ (sendPacket needAck q packet).queued) :
    p ∈ q.queued ∨ ∃ n, p.packet = { packet with seqNumber := n } := by
  cases needAck <;>
    simp only [sendPacket, queued, if_true, Bool.false_eq_true, if_false, List.mem_append,
      List.mem_singleton] at h ⊢
  · rcases h with h | h | rfl
    · exact Or.inl (Or.inl h)
    · exact Or.inl (Or.inr h)
    · exact Or.inr ⟨_, rfl⟩
  · rcases h with (h | h | rfl) | h
    · exact Or.inl (Or.inl (Or.inl h))
    · exact Or.inl (Or.inl (Or.inr h))
    · exact Or.inr ⟨_, rfl⟩
    · exact Or.inl (Or.inr h)

lemma sendPackets_queued_mem {q : SendQueue} {needAck : Bool} {packets : List Packet} {p : OutgoingPacket}
    (h : p ∈ (q.sendPackets packets needAck).queued) :
    p ∈ q.queued ∨ ∃ packet ∈ packets, ∃ n, p.packet = { packet with seqNumber := n } := by
  induction packets generalizing q with
  | nil => exact Or.inl h
  | cons packet packets ih =>
    rcases ih h with h | ⟨x, hx, hn⟩
    · rcases sendPacket_queued_mem h with h | hn
      · exact Or.inl h
      · exact Or.inr ⟨packet, List.mem_cons_self, hn⟩
    · exact Or.inr ⟨x, List.mem_cons_of_mem _ hx, hn⟩

end SendQueue

end FastTransport.Protocol
