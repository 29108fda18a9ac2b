import FastTransport.Protocol.Connection
import FastTransport.Protocol.HeaderBuffer

/-! A buffer filled from the network: what `OnReceive` checks of it, and which of its bytes the
connection states and the readers behind them look at. -/

namespace FastTransport.Protocol

open Lib.Bytes

def PacketType.ofCode : ℕ → Option PacketType
  | 0 => some .none
  | 1 => some .syn
  | 2 => some .ack
  | 3 => some .synAck
  | 4 => some .data
  | 8 => some .sack
  | 16 => some .fin
  | 32 => some .close
  | _ => Option.none

namespace Buffer

/-- The acknowledgements of a Sack are read by `DataState`, the payload of a Data packet later, by
whoever takes it from the connection's user data. -/
def spansRead (state : ConnectionState) (b : Buffer) : List Span :=
  match state, PacketType.ofCode (getPacketType b) with
  | .dataState, some .sack => [acksSpan b]
  | .dataState, some .data => [payloadSpan b]
  | .waitingSynAckState, some .data => [payloadSpan b]
  | _, _ => []

/-- The number the datagram's sender wrote in the payload size field. -/
def lengthField (b : Buffer) : ℕ := (b.getD 18 0).toNat + 256 * (b.getD 19 0).toNat

structure Safe (b : Buffer) : Prop where
  payloadSize : headerSize + getPayloadSize b ≤ b.length
  reads : ∀ state, ∀ span ∈ spansRead state b, InBounds b span

lemma getPayloadSize_eq {b : Buffer} (hb : headerSize ≤ b.length) : getPayloadSize b = lengthField b := by
  have hlength : 20 ≤ b.length := hb
  have hslice : slice b 18 2 = [b.getD 18 0, b.getD 19 0] := by
    apply List.ext_getElem?
    intro i
    rw [getElem?_slice]
    match i with
    | 0 => simp [List.getElem?_eq_getElem (show 18 < b.length by omega)]
    | 1 => simp [List.getElem?_eq_getElem (show 19 < b.length by omega)]
    | i + 2 => simp
  rw [getPayloadSize, get, show HeaderField.offset .payloadSize = 18 from rfl,
    show HeaderField.width .payloadSize = 2 from rfl, hslice, lengthField]
  simp [ofBytes]

lemma acksSpan_inBounds {b : Buffer} (h : headerSize + getPayloadSize b ≤ b.length) : InBounds b (acksSpan b) := by
  have hle : getPayloadSize b / ackWidth * ackWidth ≤ getPayloadSize b := Nat.div_mul_le_self _ _
  exact (Nat.add_le_add_left hle _).trans h

lemma spansRead_inBounds {b : Buffer} (h : headerSize + getPayloadSize b ≤ b.length) (state : ConnectionState) :
    ∀ span ∈ spansRead state b, InBounds b span := by
  simp only [spansRead]
  split
  · exact List.forall_mem_singleton.mpr (acksSpan_inBounds h)
  · exact List.forall_mem_singleton.mpr h
  · exact List.forall_mem_singleton.mpr h
  · exact fun span hspan => by cases hspan

theorem safe_iff_lengthField {b : Buffer} (h : isValid b) : b.Safe ↔ lengthField b ≤ b.length - headerSize := by
  have hb : headerSize ≤ b.length := by
    rw [isValid, Bool.and_eq_true, decide_eq_true_eq] at h
    exact h.1
  rw [← getPayloadSize_eq hb]
  constructor
  · intro hs
    have hsize := hs.payloadSize
    omega
  · intro hle
    have hsize : headerSize + getPayloadSize b ≤ b.length := by omega
    exact ⟨hsize, spansRead_inBounds hsize⟩

def sackCalls (payloadSize : UInt16) : List HeaderCall := [.setMagic, .setPacketType 8, .setPayloadSize payloadSize]

def sackBuffer (payloadSize : UInt16) : Buffer := (sackCalls payloadSize).foldl HeaderCall.apply HeaderCall.blankPacket

lemma sackBuffer_spec (payloadSize : UInt16) : (sackBuffer payloadSize).length = 1400 ∧
    isValid (sackBuffer payloadSize) ∧ getPacketType (sackBuffer payloadSize) = 8 ∧
      getPayloadSize (sackBuffer payloadSize) = payloadSize.toNat := by
  have hblank : HeaderCall.blankPacket.length = 1400 := List.length_replicate
  obtain ⟨hlength, -, hget⟩ := HeaderCall.foldl_apply (b := HeaderCall.blankPacket)
    (by rw [hblank]; decide) (sackCalls payloadSize)
  rw [hblank] at hlength
  refine ⟨hlength, ?_, hget .packetType, hget .payloadSize⟩
  rw [isValid, sackBuffer, hget, hlength]
  rfl

theorem safe_iff_lengthField_sack :
    ((sackBuffer 8).Safe ↔ lengthField (sackBuffer 8) ≤ (sackBuffer 8).length - headerSize) ∧
      getPayloadSize (sackBuffer 8) = 8 := by
  obtain ⟨-, hvalid, -, hsize⟩ := sackBuffer_spec 8
  exact ⟨safe_iff_lengthField hvalid, hsize⟩

theorem not_safe_of_accepted : ¬ ∀ b : Buffer, b.length ≤ 1400 → isValid b →
    headerSize + getPayloadSize b ≤ b.length ∧ (getPacketType b = 8 → InBounds b (acksSpan b)) := by
  intro h
  obtain ⟨hlength, hvalid, htype, hsize⟩ := sackBuffer_spec 65535
  have hbounds := (h _ hlength.le hvalid).2 htype
  rw [InBounds, acksSpan, hlength, hsize] at hbounds
  exact absurd hbounds (by decide)

end Buffer

end FastTransport.Protocol
