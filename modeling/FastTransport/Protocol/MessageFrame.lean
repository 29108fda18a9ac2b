import FastTransport.Lib.Runs
import FastTransport.Protocol.MessageWriter

/-! The frame count of a message: when the count that `GetWritedPackets` stores at the head of
the first packet is the number of packets it returns. -/

namespace FastTransport.Protocol

open Lib.Bytes Lib.Runs

namespace MessageWriter

inductive Operation
  | write (src : List UInt8)
  | packets (ps : List Packet)
  | addFreePackets (ps : List Packet)
  | getDataPackets (size : ℕ)
  deriving DecidableEq, Repr

namespace Operation

def isPackets : Operation → Bool
  | packets _ => true
  | _ => false

def copies : Operation → Bool
  | write src => !src.isEmpty
  | packets _ => true
  | _ => false

end Operation

def apply (w : MessageWriter) : Operation → Option MessageWriter
  | .write src => w.write src
  | .packets ps => w.writePackets ps
  | .addFreePackets ps => some (w.addFreePackets ps)
  | .getDataPackets size => (w.getDataPackets size).map Prod.snd

def filled (w : MessageWriter) : ℕ := if w.offset = 0 then w.packet else w.packet + 1

def skipped : Bool → List Operation → ℕ
  | _, [] => 0
  | fresh, op :: ops => (fresh && op.copies).toNat + skipped (op.isPackets || (fresh && !op.copies)) ops

def fresh : Bool → List Operation → Bool
  | isFresh, [] => isFresh
  | isFresh, op :: ops => fresh (op.isPackets || (isFresh && !op.copies)) ops

def NoCopyAfterPackets (ops : List Operation) : Prop :=
  ops.Pairwise fun op op' => op.isPackets = true → op'.copies = false

instance (ops : List Operation) : Decidable (NoCopyAfterPackets ops) :=
  inferInstanceAs (Decidable (ops.Pairwise _))

lemma skipped_eq_zero_iff (isFresh : Bool) (ops : List Operation) :
    skipped isFresh ops = 0 ↔
      (isFresh = true → ∀ op ∈ ops, op.copies = false) ∧ NoCopyAfterPackets ops := by
  induction ops generalizing isFresh with
  | nil => simp [skipped, NoCopyAfterPackets]
  | cons op ops ih =>
    simp only [skipped, NoCopyAfterPackets, Nat.add_eq_zero_iff, ih, List.pairwise_cons,
      List.forall_mem_cons]
    cases op with
    | write src => cases src <;> cases isFresh <;> simp [Operation.copies, Operation.isPackets]
    | _ => cases isFresh <;> simp [Operation.copies, Operation.isPackets]

structure Counts (isFresh : Bool) (missed : ℕ) (w : MessageWriter) : Prop where
  packet_le : w.packet ≤ w.packets.length
  packet_lt : isFresh = true → w.packet < w.packets.length
  offset : w.offset = 0 ↔ isFresh = true
  missed_le : missed + isFresh.toNat ≤ w.packet
  number : w.packet < w.packets.length →
    w.writedPacketNumber + missed ≡ w.filled [MOD seqLimit]

lemma counts_create (supply : List Packet) : Counts false 0 (create supply) :=
  ⟨Nat.zero_le _, by simp, by simp [create, frameCountSize], le_rfl, fun _ => rfl⟩

lemma Counts.filled {isFresh : Bool} {missed : ℕ} {w : MessageWriter} (hw : Counts isFresh missed w) :
    w.filled + isFresh.toNat = w.packet + 1 := by
  have ho := hw.offset
  cases isFresh with
  | true => rw [MessageWriter.filled, if_pos (ho.mpr rfl)]; rfl
  | false => rw [MessageWriter.filled, if_neg (by simp [ho])]; rfl

lemma Counts.advances {isFresh : Bool} {missed : ℕ} {w w' : MessageWriter} (hw : Counts isFresh missed w)
    (h : Advances w w') (ho : 0 < w'.offset) : Counts false (missed + isFresh.toNat) w' := by
  have hle := h.packet_le
  refine ⟨h.packet_lt.le, by simp, by simp [Nat.pos_iff_ne_zero.mp ho], hw.missed_le.trans hle, fun _ => ?_⟩
  have hn := h.number.add_right (missed + isFresh.toNat)
  have hold := (hw.number h.started).add_right (w'.packet - w.packet + isFresh.toNat)
  have hf := hw.filled
  have hf' : w'.filled = w'.packet + 1 := by rw [MessageWriter.filled, if_neg (by omega)]
  refine hn.trans ?_
  rw [show w'.filled = w.filled + (w'.packet - w.packet + isFresh.toNat) by omega]
  convert hold using 1
  omega

lemma Counts.packets {missed : ℕ} {w : MessageWriter} (hw : Counts false missed w)
    (hlt : w.packet + 1 < w.packets.length) (ps : List Packet) :
    Counts true missed ⟨w.packets.take (w.packet + 1) ++ ps ++ w.packets.drop (w.packet + 1),
      w.packet + 1 + ps.length, (w.writedPacketNumber + ps.length) % seqLimit, 0⟩ := by
  have hm := hw.missed_le
  have hf := hw.filled
  have hl : w.packet + 1 + ps.length <
      (w.packets.take (w.packet + 1) ++ ps ++ w.packets.drop (w.packet + 1)).length := by
    simp only [List.length_append, List.length_take, List.length_drop]
    omega
  refine ⟨hl.le, fun _ => hl, by simp, ?_, fun _ => ?_⟩
  · simp only [Bool.toNat_true, Bool.toNat_false] at hm ⊢
    omega
  · have hn := (hw.number (by omega)).add_right ps.length
    have hm := (Nat.mod_modEq (w.writedPacketNumber + ps.length) seqLimit).add_right missed
    refine hm.trans ?_
    rw [Nat.add_right_comm]
    refine hn.trans ?_
    simp only [Bool.toNat_false, Nat.add_zero] at hf
    rw [hf]
    rfl

lemma Counts.addFreePackets {isFresh : Bool} {missed : ℕ} {w : MessageWriter}
    (hw : Counts isFresh missed w) (ps : List Packet) : Counts isFresh missed (w.addFreePackets ps) := by
  have hle := hw.packet_le
  have hm := hw.missed_le
  refine ⟨?_, fun hf => ?_, hw.offset, ?_, fun hlt => ?_⟩
  · simp only [MessageWriter.addFreePackets, List.length_append]
    split_ifs <;> omega
  · have hlt := hw.packet_lt hf
    simp only [MessageWriter.addFreePackets, List.length_append]
    split_ifs <;> omega
  · simp only [MessageWriter.addFreePackets]
    split_ifs <;> omega
  · simp only [MessageWriter.addFreePackets, List.length_append] at hlt
    have hne : w.packet ≠ w.packets.length := by
      intro he
      rw [if_pos he] at hlt
      omega
    have hn := hw.number (by omega)
    simpa only [MessageWriter.addFreePackets, MessageWriter.filled, if_neg hne] using hn

lemma Counts.getDataPackets {isFresh : Bool} {missed size : ℕ} {w : MessageWriter}
    {r : List Packet × MessageWriter} (hw : Counts isFresh missed w)
    (h : w.getDataPackets size = some r) : Counts isFresh missed r.2 := by
  obtain ⟨hlt, hr⟩ := Option.ite_none_right_eq_some.mp h
  cases hr
  have hl : w.packet <
      (w.packets.take (w.packet + 1) ++ (w.packets.drop (w.packet + 1)).drop size).length := by
    simp only [List.length_append, List.length_take]
    omega
  exact ⟨hl.le, fun _ => hl, hw.offset, hw.missed_le, fun _ => hw.number (by omega)⟩

lemma counts_apply {isFresh : Bool} {missed : ℕ} {w w' : MessageWriter} {op : Operation}
    (hw : Counts isFresh missed w) (h : w.apply op = some w') :
    Counts (op.isPackets || (isFresh && !op.copies)) (missed + (isFresh && op.copies).toNat) w' := by
  cases op with
  | write src =>
    cases src with
    | nil =>
      rw [apply, write_nil] at h
      cases h
      simpa [Operation.isPackets, Operation.copies] using hw
    | cons b bs =>
      obtain ⟨hadv, ho⟩ := write_advances (List.cons_ne_nil b bs) h
      simpa [Operation.isPackets, Operation.copies] using hw.advances hadv ho
  | packets ps =>
    obtain ⟨v, hv, h⟩ := Option.bind_eq_some_iff.mp h
    obtain ⟨hadv, ho⟩ := write_advances (List.cons_ne_nil _ _) hv
    obtain ⟨hlt, h⟩ := Option.ite_none_right_eq_some.mp h
    cases h
    simpa [Operation.isPackets, Operation.copies] using (hw.advances hadv ho).packets hlt ps
  | addFreePackets ps =>
    cases h
    simpa [Operation.isPackets, Operation.copies] using hw.addFreePackets ps
  | getDataPackets size =>
    obtain ⟨r, hr, rfl⟩ := Option.map_eq_some_iff.mp h
    simpa [Operation.isPackets, Operation.copies] using hw.getDataPackets hr

theorem counts_run {isFresh : Bool} {missed : ℕ} {w w' : MessageWriter} {ops : List Operation}
    (hw : Counts isFresh missed w) (h : run apply w ops = some w') :
    Counts (fresh isFresh ops) (missed + skipped isFresh ops) w' := by
  induction ops generalizing w isFresh missed with
  | nil =>
    cases h
    exact hw
  | cons op ops ih =>
    obtain ⟨v, hv, hr⟩ := run_cons_eq_some.mp h
    have hops := ih (counts_apply hw hv) hr
    rwa [Nat.add_assoc] at hops

lemma getWritedPackets_eq {w w' : MessageWriter} {first : Packet} {rest : List Packet}
    (h : w.getWritedPackets = some (first :: rest, w')) (hp : w.offset = 0 → w.packet ≠ 0) :
    ofBytes (slice first.payload 0 frameCountSize) = w.writedPacketNumber % seqLimit ∧
      (first :: rest).length = w.filled ∧ (w.offset ≠ 0 → w.packet < w.packets.length) := by
  rw [getWritedPackets] at h
  by_cases hempty : w.packet = 0 ∧ w.offset = frameCountSize
  · rw [if_pos hempty] at h
    cases h
  rw [if_neg hempty] at h
  match hps : w.packets with
  | [] => simp [hps] at h
  | front :: tail =>
    simp only [hps] at h
    obtain ⟨⟨hlt, hfront⟩, h⟩ := Option.ite_none_right_eq_some.mp h
    simp only [List.take_succ_cons, Option.some.injEq, Prod.mk.injEq, List.cons.injEq] at h
    obtain ⟨⟨rfl, rfl⟩, _⟩ := h
    refine ⟨?_, ?_, fun ho => ?_⟩
    · have hs : slice (overwrite front.payload 0 (toBytes frameCountSize w.writedPacketNumber)) 0
          (toBytes frameCountSize w.writedPacketNumber).length = _ :=
        slice_overwrite_self (by simpa using hfront)
      rw [toBytes_length] at hs
      rw [Packet.withPayload_payload, hs, ofBytes_toBytes]
      rfl
    · rw [List.length_cons] at hlt
      rw [List.length_cons, List.length_take, filled]
      split_ifs at hlt ⊢ <;> omega
    · rwa [if_neg fun hc => ho hc.1] at hlt

theorem frameCount_eq_length_iff {supply : List Packet} {ops : List Operation} {w w' : MessageWriter}
    {first : Packet} {rest : List Packet} (hrun : run apply (create supply) ops = some w)
    (h : w.getWritedPackets = some (first :: rest, w')) :
    ofBytes (slice first.payload 0 frameCountSize) = (first :: rest).length ↔
      NoCopyAfterPackets ops ∧ w.filled < seqLimit := by
  have hc := counts_run (counts_create supply) hrun
  rw [Nat.zero_add] at hc
  obtain ⟨hnum, hlen, hlt⟩ := getWritedPackets_eq h fun ho => by
    have hm := hc.missed_le
    rw [hc.offset.mp ho, Bool.toNat_true] at hm
    omega
  have hskip := skipped_eq_zero_iff false ops
  have hn := hc.number (by
    by_cases ho : w.offset = 0
    · exact hc.packet_lt (hc.offset.mp ho)
    · exact hlt ho)
  have hle : skipped false ops ≤ w.filled := by
    have hm := hc.missed_le
    have hf := hc.filled
    omega
  rw [hnum, hlen]
  constructor
  · intro heq
    have hbound : w.filled < seqLimit := heq ▸ Nat.mod_lt _ (by decide)
    refine ⟨(hskip.mp ?_).2, hbound⟩
    have hz : w.writedPacketNumber + skipped false ops ≡ w.writedPacketNumber + 0 [MOD seqLimit] := by
      refine hn.trans ?_
      rw [← heq]
      exact Nat.mod_modEq _ _
    have hz := Nat.ModEq.add_left_cancel' _ hz
    rwa [Nat.ModEq, Nat.mod_eq_of_lt (by omega), Nat.zero_mod] at hz
  · rintro ⟨hno, hbound⟩
    rw [hskip.mpr ⟨by simp, hno⟩, Nat.add_zero] at hn
    rw [hn, Nat.mod_eq_of_lt hbound]

def blankPackets (count size : ℕ) : List Packet :=
  List.replicate count (Packet.ofPayload (List.replicate size 0))

theorem frameCount_packets_last :
    ∃ w first rest w', run apply (create (blankPackets 5 16))
        [.write [9, 0], .getDataPackets 1, .packets (blankPackets 2 16), .addFreePackets (blankPackets 1 16)] =
          some w ∧
      w.getWritedPackets = some (first :: rest, w') ∧
        ofBytes (slice first.payload 0 frameCountSize) = (first :: rest).length :=
  ⟨_, _, _, _, rfl, rfl, (@frameCount_eq_length_iff (blankPackets 5 16)
    [.write [9, 0], .getDataPackets 1, .packets (blankPackets 2 16),
      .addFreePackets (blankPackets 1 16)] _ _ _ _ rfl rfl).mpr ⟨by decide, by decide⟩⟩

theorem frameCount_write_after_packets :
    ¬ ∀ (supply : List Packet) (ops : List Operation) (w w' : MessageWriter) (first : Packet)
      (rest : List Packet), run apply (create supply) ops = some w →
        w.getWritedPackets = some (first :: rest, w') →
          ofBytes (slice first.payload 0 frameCountSize) = (first :: rest).length := by
  intro hall
  have hc := hall (blankPackets 3 16) [.packets (blankPackets 1 16), .write [7]] _ _ _ _ rfl rfl
  revert hc
  decide

end MessageWriter

end FastTransport.Protocol
