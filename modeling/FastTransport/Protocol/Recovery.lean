import FastTransport.Protocol.ReliableDelivery
import FastTransport.Protocol.SendOrder

/-! From every state of a link, with all copies on the way lost, the sender's queues can still bring
everything to the receiver and get every packet back, whatever timeouts and budgets the sender is given. -/

namespace FastTransport.Protocol

open Lib.Runs Lib.Lists

namespace RecvQueue

lemma takeNext_le {N : ℕ} {q : RecvQueue} (h : ∀ i p, q.queue i = some p → p.seqNumber ≤ N) (p : Packet) :
    ∀ i p', (q.takeNext p).queue i = some p' → p'.seqNumber ≤ N := by
  intro i p' hp'
  simp only [takeNext] at hp'
  by_cases hi : i = q.beginFullRecievedAck % queueSize
  · rw [hi, Function.update_self] at hp'
    cases hp'
  · rw [Function.update_of_ne hi] at hp'
    exact h i p' hp'

lemma proccessLoop_some {N fuel : ℕ} {q : RecvQueue} (hq : q.Inv) (hslot : ∀ i p, q.queue i = some p → p.seqNumber ≤ N)
    (hb : q.beginFullRecievedAck ≤ N + 1) (hN : N + 1 < seqLimit - 1) :
    ∃ q', q.proccessLoop fuel = some q' ∧ q.beginFullRecievedAck ≤ q'.beginFullRecievedAck := by
  induction fuel generalizing q with
  | zero => exact ⟨q, rfl, le_rfl⟩
  | succ fuel ih =>
    rw [proccessLoop, if_neg (by omega)]
    cases hp : q.queue (q.beginFullRecievedAck % queueSize) with
    | none => exact ⟨q, rfl, le_rfl⟩
    | some p =>
      have hle : q.beginFullRecievedAck ≤ N := next_seqNumber hq hp ▸ hslot _ _ hp
      obtain ⟨q', hq', hmono⟩ := ih (takeNext_inv hq p) (takeNext_le hslot p) (Nat.succ_le_succ hle)
      exact ⟨q', hq', (Nat.le_succ _).trans hmono⟩

lemma proccess_advances {N : ℕ} {q : RecvQueue} (hq : q.Inv) (hslot : ∀ i p, q.queue i = some p → p.seqNumber ≤ N)
    (hN : N + 1 < seqLimit - 1) (hnext : (q.queue (q.beginFullRecievedAck % queueSize)).isSome) :
    ∃ q', q.proccessUnorderedPackets = some q' ∧ q.beginFullRecievedAck < q'.beginFullRecievedAck := by
  obtain ⟨p, hp⟩ := Option.isSome_iff_exists.mp hnext
  have hle : q.beginFullRecievedAck ≤ N := next_seqNumber hq hp ▸ hslot _ _ hp
  rw [proccessUnorderedPackets, proccessLoop, if_neg (by omega), hp]
  exact proccessLoop_some (takeNext_inv hq p) (takeNext_le hslot p) (Nat.succ_le_succ hle) hN

lemma addPacket_next {q : RecvQueue} {p : Packet} (hseq : p.seqNumber = q.beginFullRecievedAck)
    (hlt : p.seqNumber < seqLimit - 1) :
    ∃ r q', q.addPacket p = some (r, q') ∧ q'.beginFullRecievedAck = q.beginFullRecievedAck ∧
      (q'.queue (q.beginFullRecievedAck % queueSize)).isSome := by
  rw [addPacket, hseq]
  rw [if_neg (by omega), if_neg (lt_irrefl _), if_neg (by simp [queueSize])]
  split_ifs with hstored
  · exact ⟨_, _, rfl, rfl, hstored⟩
  · exact ⟨_, _, rfl, rfl, by simp⟩

end RecvQueue

namespace SendQueue

def unsent (q : SendQueue) : List OutgoingPacket := q.resendPackets ++ q.needToSend

lemma length_unsent_getPacketsToSend (q : SendQueue) (size : ℕ) :
    (q.getPacketsToSend size).2.unsent.length = q.unsent.length - size := by
  have hlen := popResend_length size q.resendPackets
  have hall := (popResend_perm size q.resendPackets).length_eq
  simp only [List.length_append] at hall
  simp only [unsent, getPacketsToSend, List.length_append, List.length_drop]
  omega

end SendQueue

namespace InFlightQueue

lemma checkTimeouts_late {q : InFlightQueue} {now timeout : ℕ} (h : ∀ p ∈ q.sampled, timeout < now - p.sendTime) :
    (q.checkTimeouts now timeout).2.sampled = [] := by
  rw [sampled, checkTimeouts, flatMap_filter_isDead, List.flatMap_eq_nil_iff]
  intro s hs
  obtain ⟨s, hmem, rfl⟩ := List.mem_map.mp hs
  rw [Sample.checkTimeouts, List.filter_eq_nil_iff]
  intro p hp
  have hlate := h p (List.mem_flatMap.mpr ⟨s, hmem, hp⟩)
  simp only [decide_eq_true_eq]
  omega

lemma exists_late (q : InFlightQueue) (timeout : ℕ) : ∃ now, ∀ p ∈ q.sampled, timeout < now - p.sendTime := by
  refine ⟨(q.sampled.map OutgoingPacket.sendTime).sum + timeout + 1, fun p hp => ?_⟩
  have hle := List.single_le_sum (by simp) _ (List.mem_map_of_mem (f := OutgoingPacket.sendTime) hp)
  omega

lemma processSamples_unacked {lastAckNumber : ℕ} {samples : List Sample} {acks : Finset ℕ} :
    ∀ p ∈ (processSamples lastAckNumber samples acks).1.flatMap Sample.packets, lastAckNumber < p.seqNumber := by
  induction samples generalizing acks with
  | nil => exact fun p hp => absurd hp List.not_mem_nil
  | cons s samples ih =>
    intro p hp
    rw [processSamples, List.flatMap_cons] at hp
    rcases List.mem_append.mp hp with hp | hp
    · exact of_decide_eq_true (List.mem_filter.mp (List.mem_of_mem_filter hp)).2
    · exact ih p hp

lemma processAcks_acked {q : InFlightQueue} (h : ∀ p ∈ q.sampled, p.seqNumber ≤ q.lastAckNumber) :
    q.processAcks.2.sampled = [] :=
  List.eq_nil_iff_forall_not_mem.mpr fun p hp =>
    (processSamples_unacked p hp).not_ge (h p (processAcks_sampled_mem hp))

end InFlightQueue

/-- What the speed controller decides for the calls to come: the timeout each `CheckTimeouts` uses and the number of
packets each `GetPacketsToSend` may take. -/
structure Pace where
  timeout : ℕ → ℕ
  budget : ℕ → ℕ
  /-- It never stops for good. -/
  grants : ∀ n, ∃ m, n ≤ m ∧ 0 < budget m

lemma Pace.exists_total (pace : Pace) (total : ℕ) : ∃ n, total ≤ ((List.range n).map pace.budget).sum := by
  induction total with
  | zero => exact ⟨0, Nat.zero_le _⟩
  | succ total ih =>
    obtain ⟨n, hn⟩ := ih
    obtain ⟨m, hm, hpos⟩ := pace.grants n
    refine ⟨m + 1, ?_⟩
    have hsub : (List.range n).Sublist (List.range m) := List.range_sublist.mpr hm
    have hsum := (hsub.map pace.budget).sum_le_sum fun _ _ => Nat.zero_le _
    rw [List.range_succ, List.map_append, List.sum_append, List.map_singleton, List.sum_singleton]
    omega

namespace Link

def Action.timeout? : Action → Option ℕ
  | checkTimeouts _ timeout => some timeout
  | _ => none

def Action.budget? : Action → Option ℕ
  | getPacketsToSend size _ => some size
  | _ => none

structure Paced (pace : Pace) (as : List Action) : Prop where
  timeouts : ∃ n, as.filterMap Action.timeout? = (List.range n).map pace.timeout
  budgets : ∃ n, as.filterMap Action.budget? = (List.range n).map pace.budget

structure Unpaced (as : List Action) : Prop where
  timeouts : as.filterMap Action.timeout? = []
  budgets : as.filterMap Action.budget? = []

lemma Unpaced.nil : Unpaced [] := ⟨rfl, rfl⟩

lemma Unpaced.append {as bs : List Action} (ha : Unpaced as) (hb : Unpaced bs) : Unpaced (as ++ bs) := by
  refine ⟨?_, ?_⟩
  · rw [List.filterMap_append, ha.timeouts, hb.timeouts]
    rfl
  · rw [List.filterMap_append, ha.budgets, hb.budgets]
    rfl

lemma Paced.append {pace : Pace} {as bs : List Action} (ha : Paced pace as) (hb : Unpaced bs) :
    Paced pace (as ++ bs) := by
  refine ⟨?_, ?_⟩
  · rw [List.filterMap_append, hb.timeouts, List.append_nil]
    exact ha.timeouts
  · rw [List.filterMap_append, hb.budgets, List.append_nil]
    exact ha.budgets

lemma Inv.run {s t : Link} {as : List Action} (hs : s.Inv) (h : run step s as = some t)
    (hlt : t.submitted.length < seqLimit) : t.Inv :=
  run_invariant (P := fun s => s.submitted.length < seqLimit → s.Inv)
    (fun _ _ _ hs hstep hlt => inv_step (hs ((submitted_le hstep).trans_lt hlt)) hstep hlt) (fun _ => hs) h hlt

def cutOff (s : Link) : Link := { s with wire := [], sacks := [] }

lemma Inv.cutOff {s : Link} (hs : s.Inv) : s.cutOff.Inv :=
  ⟨hs.number, hs.needAck, hs.kept, by simp [Link.cutOff], hs.queue, hs.slot, hs.delivered, hs.lastAck_le,
    { hs.acks with sackNumber := by simp [Link.cutOff], sackAcks := by simp [Link.cutOff] }⟩

lemma exists_addQueues (s : Link) : ∃ as f freed,
    Unpaced as ∧ run step s as = some { s with handedOut := [], inFlightQueue := f, freed := freed } ∧
      f.lastAckNumber = s.inFlightQueue.lastAckNumber := by
  generalize hout : s.handedOut = batches
  induction batches generalizing s with
  | nil => exact ⟨[], s.inFlightQueue, s.freed, .nil, by rw [← hout]; rfl, rfl⟩
  | cons batch batches ih =>
    obtain ⟨as, f, freed, hcalm, hrun, hlast⟩ := ih { s with
        handedOut := batches
        inFlightQueue := (s.inFlightQueue.addQueue batch).2
        freed := s.freed ++ (s.inFlightQueue.addQueue batch).1.2 } rfl
    refine ⟨.addQueue 0 :: as, f, freed, ⟨hcalm.timeouts, hcalm.budgets⟩, run_cons_eq_some.mpr ⟨_, ?_, hrun⟩, hlast⟩
    rw [step, hout]
    rfl

def Covered (s : Link) : Prop := ∀ o ∈ s.held, o ∈ s.sendQueue.unsent ∨ o.packet ∈ s.wire

lemma Covered.getPacketsToSend {s t : Link} (h : s.Covered) {size now : ℕ}
    (ht : s.step (.getPacketsToSend size now) = some t) : t.Covered := by
  cases ht
  have hperm := s.sendQueue.getPacketsToSend_perm size
  intro o ho
  have hold : o ∈ s.sendQueue.unsent ∨ o.packet ∈ s.wire →
      o ∈ (s.sendQueue.getPacketsToSend size).2.unsent ∨ o.packet ∈ s.wire ++
        ((s.sendQueue.getPacketsToSend size).1.map fun p => { p with sendTime := now }).map OutgoingPacket.packet := by
    rintro (hq | hw)
    · rcases List.mem_append.mp (hperm.mem_iff.mpr hq) with hq | hq
      · exact Or.inr (List.mem_append_right _ (List.mem_map.mpr ⟨_, List.mem_map_of_mem hq, rfl⟩))
      · exact Or.inl hq
    · exact Or.inr (List.mem_append_left _ hw)
  rcases mem_held.mp ho with hq | hbatch | hsampled
  · exact Or.inl hq
  · rw [List.flatten_append, List.flatten_singleton] at hbatch
    rcases List.mem_append.mp hbatch with hb | hb
    · exact hold (h o (mem_held.mpr (Or.inr (Or.inl hb))))
    · exact Or.inr (List.mem_append_right _ (List.mem_map_of_mem hb))
  · exact hold (h o (mem_held.mpr (Or.inr (Or.inr hsampled))))

def sends (pace : Pace) (now n : ℕ) : List Action :=
  (List.range n).map fun i => .getPacketsToSend (pace.budget i) now

lemma run_sends (pace : Pace) (now n : ℕ) {s : Link} (h : s.Covered) :
    ∃ t, run step s (sends pace now n) = some t ∧ t.Covered ∧ t.recvQueue = s.recvQueue ∧ t.submitted = s.submitted ∧
      t.received = s.received ∧
        t.sendQueue.unsent.length = s.sendQueue.unsent.length - ((List.range n).map pace.budget).sum := by
  induction n with
  | zero => exact ⟨s, rfl, h, rfl, rfl, rfl, rfl⟩
  | succ n ih =>
    obtain ⟨t, hrun, hcovered, hrecv, hsub, hreceived, hlen⟩ := ih
    obtain ⟨u, hu⟩ : ∃ u, t.step (.getPacketsToSend (pace.budget n) now) = some u := ⟨_, rfl⟩
    refine ⟨u, ?_, hcovered.getPacketsToSend hu, ?_⟩
    · rw [sends, List.range_succ, List.map_append]
      exact run_append_eq_some.mpr ⟨t, hrun, run_cons_eq_some.mpr ⟨u, hu, rfl⟩⟩
    · cases hu
      refine ⟨hrecv, hsub, hreceived, ?_⟩
      rw [SendQueue.length_unsent_getPacketsToSend, hlen, List.range_succ, List.map_append, List.sum_append,
        List.map_singleton, List.sum_singleton, Nat.sub_sub]

/-- The sender waits for its timeouts and sends everything it holds once more. -/
lemma exists_resent (s : Link) (pace : Pace) : ∃ as t, Paced pace as ∧ run step s as = some t ∧
    t.recvQueue = s.recvQueue ∧ t.submitted = s.submitted ∧ t.received = s.received ∧
    t.sendQueue.unsent = [] ∧ ∀ o ∈ t.held, o.packet ∈ t.wire := by
  obtain ⟨as, f, freed, hcalm, hrun, -⟩ := s.exists_addQueues
  obtain ⟨now, hlate⟩ := f.exists_late (pace.timeout 0)
  let u : Link := { s with
    handedOut := []
    inFlightQueue := (f.checkTimeouts now (pace.timeout 0)).2
    freed := freed
    sendQueue := s.sendQueue.reSendPackets (f.checkTimeouts now (pace.timeout 0)).1 }
  have hcheck : step { s with handedOut := [], inFlightQueue := f, freed := freed }
      (.checkTimeouts now (pace.timeout 0)) = some u := rfl
  have hcovered : u.Covered := fun o ho => by
    rcases mem_held.mp ho with hq | hbatch | hsampled
    · exact Or.inl hq
    · exact absurd hbatch List.not_mem_nil
    · rw [show u.inFlightQueue.sampled = [] from InFlightQueue.checkTimeouts_late hlate] at hsampled
      exact absurd hsampled List.not_mem_nil
  obtain ⟨n, hn⟩ := pace.exists_total u.sendQueue.unsent.length
  obtain ⟨t, ht, hall, hrecv, hsub, hreceived, hlen⟩ := run_sends pace now n hcovered
  have hempty : t.sendQueue.unsent = [] := List.length_eq_zero_iff.mp (by omega)
  refine ⟨as ++ .checkTimeouts now (pace.timeout 0) :: sends pace now n, t, ⟨⟨1, ?_⟩, n, ?_⟩,
    run_append_eq_some.mpr ⟨_, hrun, run_cons_eq_some.mpr ⟨_, hcheck, ht⟩⟩, hrecv, hsub, hreceived, hempty,
    fun o ho => (hall o ho).resolve_left (by rw [hempty]; exact List.not_mem_nil)⟩
  · have hnone : (sends pace now n).filterMap Action.timeout? = [] := by
      rw [sends, List.filterMap_map]
      exact List.filterMap_eq_nil_iff.mpr fun _ _ => rfl
    rw [List.filterMap_append, hcalm.timeouts, List.nil_append, List.filterMap_cons, hnone]
    rfl
  · rw [List.filterMap_append, hcalm.budgets, List.nil_append, List.filterMap_cons, sends, List.filterMap_map]
    exact congrFun List.filterMap_eq_map (List.range n)

section Delivery

variable {s : Link}

lemma Inv.slot_le (hs : s.Inv) : ∀ i p, s.recvQueue.queue i = some p → p.seqNumber ≤ s.submitted.length := by
  intro i p hp
  obtain ⟨hpos, hget⟩ := getElem?_stamp (hs.slot i p hp)
  have hlt := (List.getElem?_eq_some_iff.mp hget).1
  rw [stamp_length] at hlt
  omega

lemma Inv.exists_next (hs : s.Inv) (hwire : ∀ o ∈ s.held, o.packet ∈ s.wire)
    (hle : s.recvQueue.beginFullRecievedAck ≤ s.submitted.length) (hlt : s.submitted.length + 1 < seqLimit - 1) :
    ∃ as q, Unpaced as ∧ Lib.Runs.run step s as = some { s with recvQueue := q } ∧
      q.beginFullRecievedAck = s.recvQueue.beginFullRecievedAck ∧
      (q.queue (q.beginFullRecievedAck % RecvQueue.queueSize)).isSome := by
  have hpos := hs.queue.begin_pos
  have hindex : s.recvQueue.beginFullRecievedAck - 1 < (stamp 0 s.submitted).length := by
    rw [stamp_length]
    omega
  have hmem := List.getElem_mem hindex
  have hseq : (stamp 0 s.submitted)[s.recvQueue.beginFullRecievedAck - 1].seqNumber =
      s.recvQueue.beginFullRecievedAck := by
    have hnumbers := List.getElem_of_eq (seqNumber_stamp 0 s.submitted) (by simpa using hindex)
    rw [List.getElem_map, List.getElem_range'] at hnumbers
    omega
  generalize (stamp 0 s.submitted)[s.recvQueue.beginFullRecievedAck - 1] = p at hmem hseq
  rcases List.mem_append.mp (hs.kept.mem_iff.mpr hmem) with hheld | hfreed
  · obtain ⟨o, ho, rfl⟩ := List.mem_map.mp hheld
    obtain ⟨i, hi, hget⟩ := List.getElem_of_mem (hwire o ho)
    obtain ⟨r, q, hadd, hbegin, hsome⟩ := RecvQueue.addPacket_next hseq (by omega)
    refine ⟨[.addPacket i], q, ⟨rfl, rfl⟩, ?_, hbegin, by rw [hbegin]; exact hsome⟩
    rw [run_cons, step, List.getElem?_eq_getElem hi, hget, Option.bind_some, hadd]
    rfl
  · rcases hs.acks.freed p hfreed with hbefore | ⟨p', hp', -⟩
    · omega
    · refine ⟨[], s.recvQueue, .nil, rfl, rfl, ?_⟩
      rw [← hseq, hp']
      rfl

lemma Inv.advances (hs : s.Inv) (hwire : ∀ o ∈ s.held, o.packet ∈ s.wire)
    (hle : s.recvQueue.beginFullRecievedAck ≤ s.submitted.length) (hlt : s.submitted.length + 1 < seqLimit - 1) :
    ∃ as q, Unpaced as ∧ Lib.Runs.run step s as = some { s with recvQueue := q } ∧
      s.recvQueue.beginFullRecievedAck < q.beginFullRecievedAck := by
  obtain ⟨as, q, hcalm, hrun, hbegin, hsome⟩ := hs.exists_next hwire hle hlt
  have hq := hs.run hrun (by simp only; omega)
  obtain ⟨q', hq', hmore⟩ := RecvQueue.proccess_advances hq.queue hq.slot_le hlt hsome
  refine ⟨as ++ [.proccessUnorderedPackets], q', hcalm.append ⟨rfl, rfl⟩, run_append_eq_some.mpr ⟨_, hrun, ?_⟩,
    hbegin ▸ hmore⟩
  rw [run_cons, step]
  simp only [hq']
  rfl

lemma Inv.delivers (hs : s.Inv) (hwire : ∀ o ∈ s.held, o.packet ∈ s.wire) (hlt : s.submitted.length + 1 < seqLimit - 1) :
    ∃ as q, Unpaced as ∧ Lib.Runs.run step s as = some { s with recvQueue := q } ∧
      q.getLastAck = s.submitted.length := by
  have hlast := hs.lastAck_le
  have hpos := hs.queue.begin_pos
  rw [RecvQueue.getLastAck] at hlast
  generalize hleft : s.submitted.length + 1 - s.recvQueue.beginFullRecievedAck = left
  induction left using Nat.strong_induction_on generalizing s with
  | _ left ih =>
    by_cases hle : s.recvQueue.beginFullRecievedAck ≤ s.submitted.length
    · obtain ⟨as, q, hcalm, hrun, hmore⟩ := hs.advances hwire hle hlt
      have hq := hs.run hrun (by simp only; omega)
      have hlast' := hq.lastAck_le
      simp only [RecvQueue.getLastAck] at hlast'
      obtain ⟨bs, q', hcalm', hrun', hend⟩ := ih _ (by dsimp only; omega) hq hwire hlt hlast' hq.queue.begin_pos rfl
      exact ⟨as ++ bs, q', hcalm.append hcalm', run_append_eq_some.mpr ⟨_, hrun, hrun'⟩, hend⟩
    · exact ⟨[], s.recvQueue, .nil, rfl, by rw [RecvQueue.getLastAck]; omega⟩

lemma Inv.seqNumber_le (hs : s.Inv) {o : OutgoingPacket} (ho : o ∈ s.held) : o.seqNumber ≤ s.submitted.length := by
  obtain ⟨hpos, hget⟩ := getElem?_stamp (hs.kept.mem_iff.mp (List.mem_append_left _ (List.mem_map_of_mem ho)))
  have hlt := (List.getElem?_eq_some_iff.mp hget).1
  rw [stamp_length] at hlt
  rw [OutgoingPacket.seqNumber]
  omega

lemma Inv.exists_sack (hs : s.Inv) {o : OutgoingPacket} (ho : o ∈ s.held) (hwire : o.packet ∈ s.wire)
    (hlast : s.recvQueue.getLastAck = s.submitted.length) (hlt : s.submitted.length + 1 < seqLimit - 1) :
    ∃ as q sacks, Unpaced as ∧ Lib.Runs.run step s as = some { s with recvQueue := q, sacks := sacks } ∧
      q.data = s.recvQueue.data ∧ ∃ (i : ℕ) (k : Packet), sacks[i]? = some k ∧ k.ackNumber = s.submitted.length := by
  have hle := hs.seqNumber_le ho
  have hpos := hs.queue.begin_pos
  obtain ⟨i, hi, hget⟩ := List.getElem_of_mem hwire
  have hadd : s.recvQueue.addPacket o.packet = some ((.duplicated, some o.packet),
      { s.recvQueue with selectiveAcks := s.recvQueue.selectiveAcks ++ [o.packet.seqNumber] }) := by
    rw [RecvQueue.getLastAck] at hlast
    rw [OutgoingPacket.seqNumber] at hle
    rw [RecvQueue.addPacket, if_neg (by omega), if_pos (by omega)]
  obtain ⟨ack, acks, hacks⟩ := List.exists_cons_of_ne_nil
    (List.append_ne_nil_of_right_ne_nil s.recvQueue.selectiveAcks (List.cons_ne_nil o.packet.seqNumber []))
  let k := sackPacket ⟨0, 0, 0⟩ s.submitted.length (Packet.ofPayload []) (fillAcks s.submitted.length maxAcksSize (ack :: acks)).1
  refine ⟨[.addPacket i, .sendSacks ⟨0, 0, 0⟩ [Packet.ofPayload []]], { s.recvQueue with selectiveAcks := [] },
    s.sacks ++ [k], ⟨rfl, rfl⟩, ?_, rfl, s.sacks.length, k, by simp, rfl⟩
  rw [run_cons, step, List.getElem?_eq_getElem hi, hget, Option.bind_some, hadd, Option.map_some, Option.bind_some,
    run_cons, step, Option.bind_some, run_nil]
  have hlast' : RecvQueue.getLastAck { s.recvQueue with selectiveAcks := ack :: acks } = s.submitted.length := hlast
  simp only [RecvQueue.getSelectiveAcks, hacks, hlast', sackPackets]
  cases (fillAcks s.submitted.length maxAcksSize (ack :: acks)).2 <;> rfl

lemma Inv.gets_back (hs : s.Inv) (hunsent : s.sendQueue.unsent = [])
    (hwire : ∀ o ∈ s.held, o.packet ∈ s.wire) (hlast : s.recvQueue.getLastAck = s.submitted.length)
    (hlt : s.submitted.length + 1 < seqLimit - 1) :
    ∃ as t, Unpaced as ∧ Lib.Runs.run step s as = some t ∧ t.submitted = s.submitted ∧
      t.received ++ t.recvQueue.data = s.received ++ s.recvQueue.data ∧ t.held = [] := by
  cases hheld : s.held with
  | nil => exact ⟨[], s, .nil, rfl, rfl, rfl, hheld⟩
  | cons o os =>
    have ho : o ∈ s.held := hheld ▸ List.mem_cons_self
    obtain ⟨as, q, sacks, hcalm, hrun, hdata, i, k, hk, hnumber⟩ := hs.exists_sack ho (hwire o ho) hlast hlt
    let u : Link := { s with
      recvQueue := q
      sacks := sacks
      inFlightQueue := s.inFlightQueue.setLastAck k.ackNumber }
    have hset : step { s with recvQueue := q, sacks := sacks } (.setLastAck i) = some u := by
      rw [step]
      simp only [hk]
      rfl
    obtain ⟨bs, f, freed, hcalm', hqueues, hacked⟩ := u.exists_addQueues
    have hall := run_append_eq_some.mpr ⟨_, hrun, run_cons_eq_some.mpr ⟨_, hset, hqueues⟩⟩
    have hinv := hs.run hall (by dsimp only [u]; omega)
    have hprocess : step { u with handedOut := [], inFlightQueue := f, freed := freed } .processAcks =
        some { u with handedOut := [], inFlightQueue := f.processAcks.2, freed := freed ++ f.processAcks.1 } := rfl
    have hend := run_append_eq_some.mpr ⟨_, hall, run_cons_eq_some.mpr ⟨_, hprocess, run_nil _ _⟩⟩
    have hall' : Unpaced ((as ++ .setLastAck i :: bs) ++ [.processAcks]) := by
      refine (hcalm.append ⟨?_, ?_⟩).append ⟨rfl, rfl⟩
      · exact hcalm'.timeouts
      · exact hcalm'.budgets
    refine ⟨_, _, hall', hend, rfl, ?_, ?_⟩
    · exact congrArg (s.received ++ ·) hdata
    · have hnone : f.processAcks.2.sampled = [] := by
        apply InFlightQueue.processAcks_acked
        intro p hp
        have hle := hinv.seqNumber_le (mem_held.mpr (Or.inr (Or.inr hp)))
        rw [hacked]
        simp only [u, InFlightQueue.setLastAck, hnumber] at hle ⊢
        omega
      rw [held, ← SendQueue.unsent]
      simp only [u, hunsent, hnone, List.flatten_nil, List.append_nil]

end Delivery

/-- Nothing that was lost, repeated or reordered keeps a link from delivering everything and freeing everything:
copies sent from now on are enough, at whatever pace. -/
theorem recovers {s : Link} {as : List Action} (h : run step initial as = some s)
    (hlt : s.submitted.length + 1 < seqLimit - 1) (pace : Pace) :
    ∃ bs t, Paced pace bs ∧ run step s.cutOff bs = some t ∧ t.submitted = s.submitted ∧
      t.received = stamp 0 s.submitted ∧ t.held = [] ∧ t.freed.Perm (stamp 0 s.submitted) := by
  have hs := (inv_run h (by omega)).cutOff
  obtain ⟨as₁, s₁, hpaced, h₁, -, hsub₁, -, hunsent, hwire⟩ := s.cutOff.exists_resent pace
  have hlt₁ : s₁.submitted.length + 1 < seqLimit - 1 := by rwa [hsub₁]
  have hs₁ := hs.run h₁ (by omega)
  obtain ⟨as₂, q, hcalm₂, h₂, hlast⟩ := hs₁.delivers hwire hlt₁
  have hs₂ := hs₁.run h₂ (by dsimp only; omega)
  obtain ⟨as₃, t, hcalm₃, h₃, hsub₃, hdata, hheld⟩ := hs₂.gets_back hunsent hwire hlast hlt₁
  have hs₃ := hs₂.run h₃ (by rw [hsub₃]; dsimp only; omega)
  have hsub : t.submitted = s.submitted := hsub₃.trans hsub₁
  have hrecv : t.step .recv = some { t with
      recvQueue := t.recvQueue.recvUserData.2
      received := t.received ++ t.recvQueue.recvUserData.1 } := rfl
  have hrest := run_append_eq_some.mpr ⟨_, h₂, run_append_eq_some.mpr ⟨_, h₃,
    run_cons_eq_some.mpr ⟨_, hrecv, run_nil _ _⟩⟩⟩
  have hcalm : Unpaced (as₂ ++ (as₃ ++ [.recv])) := hcalm₂.append (hcalm₃.append ⟨rfl, rfl⟩)
  refine ⟨_, _, hpaced.append hcalm, run_append_eq_some.mpr ⟨_, h₁, hrest⟩, hsub, ?_, hheld, ?_⟩
  · have hdelivered := hs₂.delivered
    rw [hlast, ← stamp_length 0 s₁.submitted, List.take_length] at hdelivered
    rw [← hsub, hsub₃, ← hdelivered, ← hdata]
    rfl
  · have hkept := hs₃.kept
    rwa [hheld, List.map_nil, List.nil_append, hsub] at hkept

def slowPace : Pace := ⟨fun _ => 50, fun n => n % 2, fun n => ⟨2 * n + 1, by omega, by omega⟩⟩

theorem recovers_sampleRun : ∃ s, run step initial sampleRun = some s ∧ s.submitted.length = 2 ∧
    ∃ bs t, Paced slowPace bs ∧ run step s.cutOff bs = some t ∧ t.submitted = s.submitted ∧
      t.received = stamp 0 s.submitted ∧ t.held = [] ∧ t.freed.Perm (stamp 0 s.submitted) :=
  ⟨_, rfl, rfl, @recovers _ sampleRun rfl (by decide) slowPace⟩

end Link

end FastTransport.Protocol
