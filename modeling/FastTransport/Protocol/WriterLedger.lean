import FastTransport.Lib.Lists
import FastTransport.Protocol.MessageFrame

/-! What becomes of the packets a message writer is given: none is lost, none is made up, and the
packets of a list stay together. -/

namespace FastTransport.Protocol

open Lib.Bytes Lib.Lists Lib.Runs

def Packet.identity (p : Packet) : Packet := p.withPayload []

@[simp] lemma Packet.identity_withPayload (p : Packet) (payload : List UInt8) :
    (p.withPayload payload).identity = p.identity := rfl

namespace MessageWriter

def Operation.given : Operation → List Packet
  | packets ps | addFreePackets ps => ps
  | _ => []

structure Ledger where
  writer : MessageWriter
  given : List Packet
  taken : List Packet

namespace Ledger

def opened (supply : List Packet) : Ledger := ⟨create supply, supply, []⟩

def step (l : Ledger) : Operation → Option Ledger
  | .getDataPackets size => (l.writer.getDataPackets size).map fun x => ⟨x.2, l.given, l.taken ++ x.1⟩
  | op => (l.writer.apply op).map fun w => ⟨w, l.given ++ op.given, l.taken⟩

end Ledger

/-- A write moves the current packet on, leaves the packets before it alone and changes payloads only. -/
structure Written (w w' : MessageWriter) : Prop where
  packet_le : w.packet ≤ w'.packet
  before : w'.packets.take w.packet = w.packets.take w.packet
  identity : w'.packets.map Packet.identity = w.packets.map Packet.identity

lemma Written.refl (w : MessageWriter) : Written w w := ⟨le_rfl, rfl, rfl⟩

lemma Written.trans {w v u : MessageWriter} (h : Written w v) (h' : Written v u) : Written w u := by
  refine ⟨h.packet_le.trans h'.packet_le, ?_, h'.identity.trans h.identity⟩
  have hb := congrArg (List.take w.packet) h'.before
  rw [List.take_take, List.take_take, Nat.min_eq_left h.packet_le] at hb
  exact hb.trans h.before

lemma written_copyTo (w : MessageWriter) {i : ℕ} (h : w.packet ≤ i) (bytes : List UInt8) :
    Written w (w.copyTo i bytes) :=
  ⟨le_rfl, take_modify _ _ h, map_modify_eq fun _ _ => rfl⟩

lemma writeLoop_written {fuel : ℕ} {w w' : MessageWriter} {src : List UInt8} (h : w.writeLoop fuel src = some w') :
    Written w w' := by
  induction fuel generalizing w src with
  | zero =>
    cases src with
    | nil =>
      cases h
      exact .refl _
    | cons b bs => simp [writeLoop] at h
  | succ fuel ih =>
    by_cases hsrc : src = []
    · rw [hsrc, writeLoop] at h
      cases h
      exact .refl _
    · obtain ⟨packet, v, _, hv, h⟩ := writeLoop_cases hsrc h
      refine Written.trans ?_ (ih h)
      rcases hv with ⟨rfl, _⟩ | ⟨_, hv⟩
      · exact written_copyTo v le_rfl _
      · -- the round copies into the packet it left
        obtain ⟨_, rfl⟩ := getNextPacket_eq hv
        refine ⟨Nat.le_succ _, take_modify _ _ le_rfl, map_modify_eq fun _ _ => rfl⟩

lemma write_written {w w' : MessageWriter} {src : List UInt8} (h : w.write src = some w') : Written w w' :=
  writeLoop_written h

lemma writePackets_eq {w w' : MessageWriter} {ps : List Packet} (h : w.writePackets ps = some w') :
    ∃ v, w.write (toBytes sizeWidth ps.length) = some v ∧ v.packet + 1 < v.packets.length ∧
      w' = ⟨v.packets.take (v.packet + 1) ++ ps ++ v.packets.drop (v.packet + 1), v.packet + 1 + ps.length,
        (v.writedPacketNumber + ps.length) % seqLimit, 0⟩ := by
  obtain ⟨v, hv, h⟩ := Option.bind_eq_some_iff.mp h
  obtain ⟨hlt, h⟩ := Option.ite_none_right_eq_some.mp h
  exact ⟨v, hv, hlt, (Option.some.inj h).symm⟩

/-- The packets before the current one are settled: no operation touches them again. -/
structure Settles (w w' : MessageWriter) : Prop where
  packet_le : w.packet ≤ w'.packet
  bound : w'.packet ≤ w'.packets.length
  before : w'.packets.take w.packet = w.packets.take w.packet

lemma apply_settles {w w' : MessageWriter} {op : Operation} (hle : w.packet ≤ w.packets.length)
    (h : w.apply op = some w') : Settles w w' := by
  cases op with
  | write src =>
    have hw := write_written h
    refine ⟨hw.packet_le, ?_, hw.before⟩
    by_cases hsrc : src = []
    · rw [hsrc, apply, write_nil] at h
      cases h
      exact hle
    · exact (write_advances hsrc h).1.packet_lt.le
  | packets ps =>
    obtain ⟨v, hv, hlt, rfl⟩ := writePackets_eq h
    have hw := write_written hv
    have hpacket := hw.packet_le
    refine ⟨by dsimp only; omega, ?_, ?_⟩
    · simp only [List.length_append, List.length_take, List.length_drop]
      omega
    · rw [List.append_assoc, List.take_append_of_le_length (by rw [List.length_take]; omega), List.take_take,
        Nat.min_eq_left (by omega), hw.before]
  | addFreePackets ps =>
    cases h
    refine ⟨?_, ?_, List.take_append_of_le_length hle⟩
    · rw [addFreePackets]
      dsimp only
      split_ifs <;> omega
    · simp only [addFreePackets, List.length_append]
      split_ifs <;> omega
  | getDataPackets size =>
    obtain ⟨x, hx, rfl⟩ := Option.map_eq_some_iff.mp h
    obtain ⟨hlt, hx⟩ := Option.ite_none_right_eq_some.mp hx
    cases hx
    refine ⟨le_rfl, ?_, ?_⟩
    · simp only [List.length_append, List.length_take, List.length_drop]
      omega
    · rw [List.take_append_of_le_length (by rw [List.length_take]; omega), List.take_take,
        Nat.min_eq_left (Nat.le_succ _)]

/-- The list `ps` stands before the current packet, right behind the packet that is still `c`. -/
def Placed (c : Packet) (ps : List Packet) (w : MessageWriter) : Prop :=
  ∃ before current after, w.packets.take w.packet = before ++ current :: (ps ++ after) ∧
    current.identity = c.identity

lemma Settles.placed {w w' : MessageWriter} {c : Packet} {ps : List Packet} (h : Settles w w')
    (hp : Placed c ps w) : Placed c ps w' := by
  obtain ⟨before, current, after, he, hc⟩ := hp
  refine ⟨before, current, after ++ (w'.packets.take w'.packet).drop w.packet, ?_, hc⟩
  have hsplit := List.take_append_drop w.packet (w'.packets.take w'.packet)
  rw [List.take_take, Nat.min_eq_left h.packet_le, h.before, he] at hsplit
  refine hsplit.symm.trans ?_
  simp only [List.append_assoc, List.cons_append]

lemma placed_writePackets {w w' : MessageWriter} {ps : List Packet} (h : w.writePackets ps = some w') :
    ∃ v c, w.write (toBytes sizeWidth ps.length) = some v ∧ v.packets[v.packet]? = some c ∧ Placed c ps w' := by
  obtain ⟨v, hv, hlt, rfl⟩ := writePackets_eq h
  have hcurrent := List.getElem?_eq_getElem (Nat.lt_of_succ_lt hlt)
  refine ⟨v, _, hv, hcurrent, v.packets.take v.packet, _, [], ?_, rfl⟩
  have hlen : (v.packets.take (v.packet + 1) ++ ps).length = v.packet + 1 + ps.length := by
    rw [List.length_append, List.length_take]
    omega
  rw [List.append_nil]
  dsimp only
  rw [← hlen, List.take_left, List.take_succ_eq_append_getElem (Nat.lt_of_succ_lt hlt), List.append_assoc,
    List.singleton_append]

namespace Ledger

lemma step_writer {l l' : Ledger} {op : Operation} (h : l.step op = some l') :
    l.writer.apply op = some l'.writer := by
  cases op with
  | getDataPackets size =>
    obtain ⟨x, hx, rfl⟩ := Option.map_eq_some_iff.mp h
    rw [apply, hx]
    rfl
  | addFreePackets ps =>
    cases h
    rfl
  | write src | packets ps =>
    obtain ⟨w, hw, rfl⟩ := Option.map_eq_some_iff.mp h
    exact hw

structure Balanced (l : Ledger) : Prop where
  bound : l.writer.packet ≤ l.writer.packets.length
  perm : (l.given.map Packet.identity).Perm ((l.taken ++ l.writer.packets).map Packet.identity)

lemma balanced_opened (supply : List Packet) : Balanced (opened supply) := ⟨Nat.zero_le _, .refl _⟩

lemma perm_insert {α : Type*} {given taken packets : List α} (h : given.Perm (taken ++ packets)) (ps : List α)
    (k : ℕ) : (given ++ ps).Perm (taken ++ (packets.take k ++ ps ++ packets.drop k)) := by
  refine (h.append_right ps).trans ?_
  rw [List.append_assoc]
  refine List.Perm.append_left taken ?_
  nth_rewrite 1 [← List.take_append_drop k packets]
  rw [List.append_assoc, List.append_assoc]
  exact List.perm_append_comm.append_left _

lemma perm_remove {α : Type*} {given taken packets : List α} (h : given.Perm (taken ++ packets)) (k size : ℕ) :
    given.Perm (taken ++ (packets.drop k).take size ++ (packets.take k ++ (packets.drop k).drop size)) := by
  refine h.trans ?_
  rw [List.append_assoc]
  refine List.Perm.append_left taken ?_
  nth_rewrite 1 [← List.take_append_drop k packets, ← List.take_append_drop size (packets.drop k)]
  exact List.perm_append_comm_assoc ..

lemma step_balanced (l : Ledger) (op : Operation) (l' : Ledger) (hl : Balanced l) (h : l.step op = some l') :
    Balanced l' := by
  refine ⟨(apply_settles hl.bound (step_writer h)).bound, ?_⟩
  have hp := hl.perm
  rw [List.map_append] at hp
  cases op with
  | write src =>
    obtain ⟨w, hw, rfl⟩ := Option.map_eq_some_iff.mp h
    have hid := (write_written hw).identity
    simpa [Operation.given, hid] using hp
  | packets ps =>
    obtain ⟨w, hw, rfl⟩ := Option.map_eq_some_iff.mp h
    obtain ⟨v, hv, _, rfl⟩ := writePackets_eq hw
    rw [← (write_written hv).identity] at hp
    simpa only [Operation.given, List.map_append, List.map_take, List.map_drop] using perm_insert hp _ _
  | addFreePackets ps =>
    cases h
    simp only [Operation.given, addFreePackets, List.map_append]
    rw [← List.append_assoc]
    exact hp.append_right _
  | getDataPackets size =>
    obtain ⟨x, hx, rfl⟩ := Option.map_eq_some_iff.mp h
    obtain ⟨_, hx⟩ := Option.ite_none_right_eq_some.mp hx
    cases hx
    simpa only [List.map_append, List.map_take, List.map_drop] using perm_remove hp _ _

lemma step_placed (c : Packet) (ps : List Packet) (l : Ledger) (op : Operation) (l' : Ledger)
    (hl : Balanced l ∧ Placed c ps l.writer) (h : l.step op = some l') : Balanced l' ∧ Placed c ps l'.writer :=
  ⟨step_balanced l op l' hl.1 h, (apply_settles hl.1.bound (step_writer h)).placed hl.2⟩

end Ledger

lemma getWritedPackets_split {w w' : MessageWriter} {written : List Packet}
    (h : w.getWritedPackets = some (written, w')) :
    (written ++ w'.packets).map Packet.identity = w.packets.map Packet.identity ∧
      ∀ before current after, w.packets.take w.packet = before ++ current :: after →
        ∃ before' current' after', written = before' ++ current' :: (after ++ after') ∧
          current'.identity = current.identity := by
  rw [getWritedPackets] at h
  by_cases hempty : w.packet = 0 ∧ w.offset = frameCountSize
  · rw [if_pos hempty] at h
    cases h
    refine ⟨by rw [List.nil_append], fun before current after he => ?_⟩
    rw [hempty.1, List.take_zero] at he
    exact absurd he.symm (by simp)
  rw [if_neg hempty] at h
  cases hps : w.packets with
  | nil => simp [hps] at h
  | cons front rest =>
    simp only [hps] at h
    obtain ⟨⟨hlt, _⟩, h⟩ := Option.ite_none_right_eq_some.mp h
    generalize hp : (if w.offset = 0 ∧ w.packet ≠ 0 then w.packet - 1 else w.packet) = packet at h hlt
    have hpacket : w.packet ≤ packet + 1 := by
      rw [← hp]
      split_ifs <;> omega
    generalize hfront : front.withPayload
      (overwrite front.payload 0 (toBytes frameCountSize w.writedPacketNumber)) = front' at h
    have hid : front'.identity = front.identity := by rw [← hfront, Packet.identity_withPayload]
    cases h
    refine ⟨by rw [List.take_append_drop, List.map_cons, List.map_cons, hid], fun before current after he => ?_⟩
    obtain ⟨more, hmore⟩ : ∃ more, (front :: rest).take (packet + 1) = before ++ current :: after ++ more := by
      refine ⟨((front :: rest).take (packet + 1)).drop w.packet, ?_⟩
      rw [← he, ← Nat.min_eq_left hpacket, ← List.take_take, Nat.min_eq_left hpacket, List.take_append_drop]
    cases before with
    | nil =>
      rw [List.take_succ_cons, List.nil_append, List.cons_append, List.cons.injEq] at hmore
      exact ⟨[], front', more, by rw [List.take_succ_cons, hmore.2]; rfl, by rw [hid, hmore.1]⟩
    | cons x before =>
      rw [List.take_succ_cons, List.cons_append, List.cons_append, List.cons.injEq] at hmore
      refine ⟨front' :: before, current, more, ?_, rfl⟩
      rw [List.take_succ_cons, hmore.2]
      simp only [List.cons_append, List.append_assoc]

theorem packets_conserved {supply : List Packet} {ops : List Operation} {l : Ledger} {written : List Packet}
    {w : MessageWriter} (hrun : run Ledger.step (Ledger.opened supply) ops = some l)
    (hw : l.writer.getWritedPackets = some (written, w)) :
    (l.given.map Packet.identity).Perm ((l.taken ++ written ++ w.packets).map Packet.identity) ∧
      ∀ before ps after, ops = before ++ .packets ps :: after →
        ∃ l₁ v current, run Ledger.step (Ledger.opened supply) before = some l₁ ∧
          l₁.writer.write (toBytes sizeWidth ps.length) = some v ∧ v.packets[v.packet]? = some current ∧
          ∃ before' current' after', written = before' ++ current' :: (ps ++ after') ∧
            current'.identity = current.identity := by
  have hb := run_invariant Ledger.step_balanced (Ledger.balanced_opened supply) hrun
  obtain ⟨hid, hplaced⟩ := getWritedPackets_split hw
  refine ⟨?_, ?_⟩
  · rw [List.append_assoc, List.map_append, hid, ← List.map_append]
    exact hb.perm
  · rintro before ps after rfl
    obtain ⟨l₁, hbefore, hrest⟩ := run_append_eq_some.mp hrun
    obtain ⟨l₂, hlist, hafter⟩ := run_cons_eq_some.mp hrest
    obtain ⟨v, current, hv, hcurrent, hp⟩ := placed_writePackets (Ledger.step_writer hlist)
    have hb₁ := run_invariant Ledger.step_balanced (Ledger.balanced_opened supply) hbefore
    have hb₂ := Ledger.step_balanced _ _ _ hb₁ hlist
    obtain ⟨_, before', c, after', he, hc⟩ := run_invariant (Ledger.step_placed current ps) ⟨hb₂, hp⟩ hafter
    obtain ⟨before'', c', after'', hwritten, hc'⟩ := hplaced before' c (ps ++ after') he
    exact ⟨l₁, v, current, hbefore, hv, hcurrent, before'', c', after' ++ after'', by
      rw [hwritten, List.append_assoc], hc'.trans hc⟩

theorem packets_conserved_two :
    ∃ l written w, run Ledger.step (Ledger.opened (blankPackets 4 16))
        [.write [9], .getDataPackets 1, .packets (blankPackets 2 16), .addFreePackets (blankPackets 1 16)] = some l ∧
      l.writer.getWritedPackets = some (written, w) ∧
        (l.given.map Packet.identity).Perm ((l.taken ++ written ++ w.packets).map Packet.identity) :=
  ⟨_, _, _, rfl, rfl, (@packets_conserved (blankPackets 4 16)
    [.write [9], .getDataPackets 1, .packets (blankPackets 2 16), .addFreePackets (blankPackets 1 16)]
    _ _ _ rfl rfl).1⟩

end MessageWriter

end FastTransport.Protocol
