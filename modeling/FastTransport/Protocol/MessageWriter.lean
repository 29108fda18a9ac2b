import FastTransport.Lib.Bytes
import FastTransport.Protocol.Packet

/-! `MessageWriter`: fields are written into a supply of packets from a current packet
and an offset. An operation is undefined (`none`) where an assertion fails, a range
splice starts past the last packet, or bytes are copied outside a payload. -/

namespace FastTransport.Protocol

open Lib.Bytes

structure MessageWriter where
  packets : List Packet
  packet : ℕ
  writedPacketNumber : ℕ
  offset : ℕ
  deriving DecidableEq, Repr

def frameCountSize : ℕ := 4

def sizeWidth : ℕ := 8

namespace MessageWriter

def create (packets : List Packet) : MessageWriter := ⟨packets, 0, 1, frameCountSize⟩

def getNextPacket (w : MessageWriter) : Option MessageWriter :=
  if w.packet + 1 < w.packets.length then
    some { w with writedPacketNumber := (w.writedPacketNumber + 1) % seqLimit
                  packet := w.packet + 1
                  offset := 0 }
  else none

def copyTo (w : MessageWriter) (i : ℕ) (bytes : List UInt8) : MessageWriter :=
  { w with packets := w.packets.modify i fun p => p.withPayload (overwrite p.payload w.offset bytes)
           offset := w.offset + bytes.length }

/-- One round copies into the packet that was current when the round began: the assignment
`packet = GetNextPacket()` goes through a base-class reference and rebinds nothing. -/
def writeLoop : ℕ → MessageWriter → List UInt8 → Option MessageWriter
  | _, w, [] => some w
  | 0, _, _ :: _ => none
  | fuel + 1, w, src@(_ :: _) =>
    (w.packets[w.packet]?).bind fun packet =>
      (if w.offset = packet.payload.length then w.getNextPacket else some w).bind fun w' =>
        if packet.payload.length < w'.offset then none
        else
          let writeSize := min src.length (packet.payload.length - w'.offset)
          writeLoop fuel (w'.copyTo w.packet (src.take writeSize)) (src.drop writeSize)

def write (w : MessageWriter) (src : List UInt8) : Option MessageWriter :=
  w.writeLoop (src.length + w.packets.length) src

def writePackets (w : MessageWriter) (ps : List Packet) : Option MessageWriter :=
  (w.write (toBytes sizeWidth ps.length)).bind fun w' =>
    if w'.packet + 1 < w'.packets.length then
      some ⟨w'.packets.take (w'.packet + 1) ++ ps ++ w'.packets.drop (w'.packet + 1),
        w'.packet + 1 + ps.length, (w'.writedPacketNumber + ps.length) % seqLimit, 0⟩
    else none

def getWritedPackets (w : MessageWriter) : Option (List Packet × MessageWriter) :=
  if w.packet = 0 ∧ w.offset = frameCountSize then some ([], w)
  else
    let packet := if w.offset = 0 ∧ w.packet ≠ 0 then w.packet - 1 else w.packet
    match w.packets with
    | [] => none
    | front :: rest =>
      if packet < w.packets.length ∧ frameCountSize ≤ front.payload.length then
        let front' := front.withPayload
          (overwrite front.payload 0 (toBytes frameCountSize w.writedPacketNumber))
        some ((front' :: rest).take (packet + 1),
          { w with packets := (front' :: rest).drop (packet + 1), packet := 0 })
      else none

def getDataPackets (w : MessageWriter) (size : ℕ) : Option (List Packet × MessageWriter) :=
  if w.packet + 1 < w.packets.length then
    let freePackets := w.packets.drop (w.packet + 1)
    some (freePackets.take size,
      { w with packets := w.packets.take (w.packet + 1) ++ freePackets.drop size })
  else none

/-- The end iterator of the list stays the end iterator. -/
def addFreePackets (w : MessageWriter) (ps : List Packet) : MessageWriter :=
  { w with packets := w.packets ++ ps
           packet := if w.packet = w.packets.length then w.packets.length + ps.length else w.packet }

lemma getNextPacket_eq {w v : MessageWriter} (h : w.getNextPacket = some v) :
    w.packet + 1 < w.packets.length ∧ v = ⟨w.packets, w.packet + 1,
      (w.writedPacketNumber + 1) % seqLimit, 0⟩ := by
  obtain ⟨hlt, hv⟩ := Option.ite_none_right_eq_some.mp h
  exact ⟨hlt, (Option.some.inj hv).symm⟩

@[simp] lemma copyTo_packets_length (w : MessageWriter) (i : ℕ) (bytes : List UInt8) :
    (w.copyTo i bytes).packets.length = w.packets.length :=
  List.length_modify ..

lemma writeLoop_cases {fuel : ℕ} {w w' : MessageWriter} {src : List UInt8} (hsrc : src ≠ [])
    (h : w.writeLoop (fuel + 1) src = some w') :
    ∃ packet v, w.packets[w.packet]? = some packet ∧
      ((v = w ∧ w.offset < packet.payload.length) ∨
        (w.offset = packet.payload.length ∧ w.getNextPacket = some v)) ∧
      writeLoop fuel (v.copyTo w.packet (src.take (min src.length (packet.payload.length - v.offset))))
        (src.drop (min src.length (packet.payload.length - v.offset))) = some w' := by
  obtain ⟨b, bs, rfl⟩ := List.exists_cons_of_ne_nil hsrc
  rw [writeLoop, Option.bind_eq_some_iff] at h
  obtain ⟨packet, hp, h⟩ := h
  rw [Option.bind_eq_some_iff] at h
  obtain ⟨v, hv, h⟩ := h
  split_ifs at h with hlt
  refine ⟨packet, v, hp, ?_, h⟩
  split_ifs at hv with ho
  · exact Or.inr ⟨ho, hv⟩
  · cases hv
    exact Or.inl ⟨rfl, by omega⟩

structure Advances (w w' : MessageWriter) : Prop where
  started : w.packet < w.packets.length
  packet_le : w.packet ≤ w'.packet
  packet_lt : w'.packet < w'.packets.length
  number : w'.writedPacketNumber ≡ w.writedPacketNumber + (w'.packet - w.packet) [MOD seqLimit]

lemma Advances.trans {w v u : MessageWriter} (h : Advances w v) (h' : Advances v u) : Advances w u := by
  refine ⟨h.started, h.packet_le.trans h'.packet_le, h'.packet_lt, ?_⟩
  have hn := h'.number.trans (h.number.add_right (u.packet - v.packet))
  have hle := h.packet_le
  have hle' := h'.packet_le
  rwa [Nat.add_assoc, show v.packet - w.packet + (u.packet - v.packet) = u.packet - w.packet by omega] at hn

lemma advances_copyTo {w : MessageWriter} (hw : w.packet < w.packets.length) (i : ℕ)
    (bytes : List UInt8) : Advances w (w.copyTo i bytes) := by
  refine ⟨hw, le_rfl, ?_, ?_⟩
  · rwa [copyTo_packets_length]
  · simp only [copyTo, Nat.sub_self, Nat.add_zero]
    rfl

lemma advances_getNextPacket {w v : MessageWriter} (h : w.getNextPacket = some v) : Advances w v := by
  obtain ⟨hlt, rfl⟩ := getNextPacket_eq h
  refine ⟨by omega, Nat.le_succ _, hlt, ?_⟩
  simp only [Nat.add_sub_cancel_left]
  exact Nat.mod_modEq _ _

lemma writeLoop_advances {fuel : ℕ} {w w' : MessageWriter} {src : List UInt8} (hsrc : src ≠ [])
    (h : w.writeLoop fuel src = some w') : Advances w w' ∧ 0 < w'.offset := by
  induction fuel generalizing w src with
  | zero =>
    cases src with
    | nil => exact absurd rfl hsrc
    | cons b bs => simp [writeLoop] at h
  | succ fuel ih =>
    obtain ⟨packet, v, hp, hv, h⟩ := writeLoop_cases hsrc h
    have hlt := (List.getElem?_eq_some_iff.mp hp).1
    have hwv : Advances w (v.copyTo w.packet
        (src.take (min src.length (packet.payload.length - v.offset)))) := by
      rcases hv with ⟨rfl, _⟩ | ⟨_, hv⟩
      · exact advances_copyTo hlt _ _
      · have hnext := advances_getNextPacket hv
        exact hnext.trans (advances_copyTo hnext.packet_lt _ _)
    by_cases hrest : src.drop (min src.length (packet.payload.length - v.offset)) = []
    · rw [hrest, writeLoop] at h
      cases h
      refine ⟨hwv, ?_⟩
      have hl := List.drop_eq_nil_iff.mp hrest
      have hpos := List.length_pos_of_ne_nil hsrc
      simp only [copyTo, List.length_take]
      omega
    · obtain ⟨hadv, hoff⟩ := ih hrest h
      exact ⟨hwv.trans hadv, hoff⟩

lemma write_nil (w : MessageWriter) : w.write [] = some w := by
  rw [write, writeLoop]

lemma write_advances {w w' : MessageWriter} {src : List UInt8} (hsrc : src ≠ [])
    (h : w.write src = some w') : Advances w w' ∧ 0 < w'.offset :=
  writeLoop_advances hsrc h

end MessageWriter

end FastTransport.Protocol
