import FastTransport.Lib.Bytes
import FastTransport.Protocol.Packet

/-! The bytes of a packet: header fields copied in and out at fixed offsets, and behind them
acknowledgements or payload. Numbers are little-endian. -/

namespace FastTransport.Protocol

open Lib.Bytes

abbrev Buffer := List UInt8

inductive HeaderField
  | magic | packetType | srcConnectionID | dstConnectionID | seqNumber | ackNumber | payloadSize
  deriving DecidableEq

namespace HeaderField

def width : HeaderField → ℕ
  | magic => 4
  | packetType => 2
  | srcConnectionID => 2
  | dstConnectionID => 2
  | seqNumber => 4
  | ackNumber => 4
  | payloadSize => 2

def offset : HeaderField → ℕ
  | magic => 0
  | packetType => width magic
  | srcConnectionID => width magic + width packetType
  | dstConnectionID => width magic + width packetType + width srcConnectionID
  | seqNumber => width magic + width packetType + width srcConnectionID + width dstConnectionID
  | ackNumber => width magic + width packetType + width srcConnectionID + width dstConnectionID + width seqNumber
  | payloadSize => width magic + width packetType + width srcConnectionID + width dstConnectionID +
      width seqNumber + width ackNumber

end HeaderField

open HeaderField in
def headerSize : ℕ :=
  width magic + width packetType + width srcConnectionID + width dstConnectionID + width seqNumber +
    width ackNumber + width payloadSize

def magicNumber : ℕ := 0x12345678

namespace Buffer

def get (f : HeaderField) (b : Buffer) : ℕ := ofBytes (slice b f.offset f.width)

def set (f : HeaderField) (value : ℕ) (b : Buffer) : Buffer := overwrite b f.offset (toBytes f.width value)

def isValid (b : Buffer) : Bool := headerSize ≤ b.length && get .magic b == magicNumber

def getPacketType (b : Buffer) : ℕ := get .packetType b
def getSrcConnectionID (b : Buffer) : ℕ := get .srcConnectionID b
def getDstConnectionID (b : Buffer) : ℕ := get .dstConnectionID b
def getSeqNumber (b : Buffer) : ℕ := get .seqNumber b
def getAckNumber (b : Buffer) : ℕ := get .ackNumber b
def getPayloadSize (b : Buffer) : ℕ := get .payloadSize b

def setMagic (b : Buffer) : Buffer := set .magic magicNumber b
def setPacketType (type : UInt16) (b : Buffer) : Buffer := set .packetType type.toNat b
def setSrcConnectionID (connectionId : UInt16) (b : Buffer) : Buffer := set .srcConnectionID connectionId.toNat b
def setDstConnectionID (connectionId : UInt16) (b : Buffer) : Buffer := set .dstConnectionID connectionId.toNat b
def setSeqNumber (seq : UInt32) (b : Buffer) : Buffer := set .seqNumber seq.toNat b
def setAckNumber (ack : UInt32) (b : Buffer) : Buffer := set .ackNumber ack.toNat b
def setPayloadSize (payloadSize : UInt16) (b : Buffer) : Buffer := set .payloadSize payloadSize.toNat b

structure Span where
  offset : ℕ
  size : ℕ

def InBounds (b : Buffer) (span : Span) : Prop := span.offset + span.size ≤ b.length

instance (b : Buffer) (span : Span) : Decidable (InBounds b span) := inferInstanceAs (Decidable (_ ≤ _))

/-- A read outside the buffer has no result. -/
def read (b : Buffer) (span : Span) : Option (List UInt8) :=
  if InBounds b span then some (slice b span.offset span.size) else none

def write (b : Buffer) (offset : ℕ) (bytes : List UInt8) : Option Buffer :=
  if InBounds b ⟨offset, bytes.length⟩ then some (overwrite b offset bytes) else none

def ackWidth : ℕ := 4

def encodeAcks (acks : List UInt32) : List UInt8 := acks.flatMap fun n => toBytes ackWidth n.toNat

def decodeAcks (bytes : List UInt8) : ℕ → List UInt32
  | 0 => []
  | n + 1 => UInt32.ofNat (ofBytes (bytes.take ackWidth)) :: decodeAcks (bytes.drop ackWidth) n

def acksSpan (b : Buffer) : Span := ⟨headerSize, getPayloadSize b / ackWidth * ackWidth⟩

def getAcks (b : Buffer) : Option (List UInt32) :=
  (read b (acksSpan b)).map fun bytes => decodeAcks bytes (getPayloadSize b / ackWidth)

def setAcks (acks : List UInt32) (b : Buffer) : Option Buffer :=
  write (setPayloadSize (UInt16.ofNat (acks.length * ackWidth)) b) headerSize (encodeAcks acks)

def payloadSpan (b : Buffer) : Span := ⟨headerSize, getPayloadSize b⟩

def getPayload (b : Buffer) : Option (List UInt8) := read b (payloadSpan b)

def setPayload (payload : List UInt8) (b : Buffer) : Option Buffer :=
  write (setPayloadSize (UInt16.ofNat payload.length) b) headerSize payload

lemma field_fits (f : HeaderField) : f.offset + f.width ≤ headerSize := by
  cases f <;> decide

lemma field_disjoint {f g : HeaderField} (h : f ≠ g) :
    g.offset + g.width ≤ f.offset ∨ f.offset + f.width ≤ g.offset := by
  revert h
  cases f <;> cases g <;> decide

lemma set_length {b : Buffer} (hb : headerSize ≤ b.length) (f : HeaderField) (value : ℕ) :
    (set f value b).length = b.length := by
  have hf := field_fits f
  apply overwrite_length
  rw [toBytes_length]
  omega

lemma get_set_self {b : Buffer} (hb : headerSize ≤ b.length) {f : HeaderField} {value : ℕ}
    (hv : value < 256 ^ f.width) : get f (set f value b) = value := by
  have hf := field_fits f
  have hfit : f.offset + (toBytes f.width value).length ≤ b.length := by rw [toBytes_length]; omega
  have hslice := slice_overwrite_self hfit
  rw [toBytes_length] at hslice
  rw [get, set, hslice, ofBytes_toBytes_of_lt hv]

lemma get_set_other {b : Buffer} (hb : headerSize ≤ b.length) {f g : HeaderField} (value : ℕ) (h : f ≠ g) :
    get g (set f value b) = get g b := by
  have hf := field_fits f
  have hdisjoint := field_disjoint h
  have hslice : slice (set f value b) g.offset g.width = slice b g.offset g.width :=
    slice_overwrite_disjoint (by rw [toBytes_length]; omega) (by rw [toBytes_length]; exact hdisjoint)
  rw [get, get, hslice]

lemma set_drop {b : Buffer} (hb : headerSize ≤ b.length) (f : HeaderField) (value : ℕ) :
    (set f value b).drop headerSize = b.drop headerSize := by
  have hf := field_fits f
  apply List.ext_getElem?
  intro i
  rw [List.getElem?_drop, List.getElem?_drop, set, getElem?_overwrite (by rw [toBytes_length]; omega),
    toBytes_length, if_neg (by omega)]

lemma get_write {b c : Buffer} {bytes : List UInt8} (h : write b headerSize bytes = some c) (f : HeaderField) :
    get f c = get f b := by
  have hf := field_fits f
  simp only [write] at h
  split_ifs at h with hin
  cases h
  have hslice : slice (overwrite b headerSize bytes) f.offset f.width = slice b f.offset f.width :=
    slice_overwrite_disjoint hin (Or.inl hf)
  rw [get, get, hslice]

lemma read_write {b c : Buffer} {bytes : List UInt8} (h : write b headerSize bytes = some c) :
    c.length = b.length ∧ read c ⟨headerSize, bytes.length⟩ = some bytes := by
  simp only [write] at h
  split_ifs at h with hin
  cases h
  have hfit : headerSize + bytes.length ≤ b.length := hin
  have hlength := overwrite_length hfit
  have hread : InBounds (overwrite b headerSize bytes) ⟨headerSize, bytes.length⟩ := hfit.trans_eq hlength.symm
  refine ⟨hlength, ?_⟩
  rw [read, if_pos hread]
  exact congrArg some (slice_overwrite_self hfit)

lemma write_drop {b c : Buffer} {bytes : List UInt8} (h : write b headerSize bytes = some c) :
    c.drop (headerSize + bytes.length) = b.drop (headerSize + bytes.length) := by
  simp only [write] at h
  split_ifs at h with hin
  cases h
  have hfit : headerSize + bytes.length ≤ b.length := hin
  apply List.ext_getElem?
  intro i
  rw [List.getElem?_drop, List.getElem?_drop, getElem?_overwrite hfit, if_neg (by omega)]

lemma encodeAcks_length (acks : List UInt32) : (encodeAcks acks).length = acks.length * ackWidth := by
  simp [encodeAcks, List.length_flatMap]

lemma decodeAcks_encodeAcks (acks : List UInt32) : decodeAcks (encodeAcks acks) acks.length = acks := by
  induction acks with
  | nil => rfl
  | cons n acks ih =>
    have hcons : encodeAcks (n :: acks) = toBytes ackWidth n.toNat ++ encodeAcks acks := rfl
    have hlength : (toBytes ackWidth n.toNat).length = ackWidth := toBytes_length _ _
    have hn : UInt32.ofNat (ofBytes (toBytes ackWidth n.toNat)) = n := by
      rw [ofBytes_toBytes_of_lt n.toNat_lt, UInt32.ofNat_toNat]
    rw [List.length_cons, decodeAcks, hcons, List.take_left' hlength, List.drop_left' hlength, ih, hn]

structure SetSpec (b c : Buffer) (size : ℕ) : Prop where
  length : c.length = b.length
  payloadSize : getPayloadSize c = size
  header : ∀ f, f ≠ .payloadSize → get f c = get f b
  rest : c.drop (headerSize + size) = b.drop (headerSize + size)

lemma write_setPayloadSize {b : Buffer} {bytes : List UInt8} (hb : headerSize + bytes.length ≤ b.length)
    (hsize : bytes.length < 2 ^ 16) :
    ∃ c, write (setPayloadSize (UInt16.ofNat bytes.length) b) headerSize bytes = some c ∧
      SetSpec b c bytes.length ∧ read c ⟨headerSize, bytes.length⟩ = some bytes := by
  have hheader : headerSize ≤ b.length := (Nat.le_add_right _ _).trans hb
  have hvalue : (UInt16.ofNat bytes.length).toNat = bytes.length := UInt16.toNat_ofNat_of_lt' hsize
  have hlength := set_length hheader .payloadSize (UInt16.ofNat bytes.length).toNat
  have hin : InBounds (setPayloadSize (UInt16.ofNat bytes.length) b) ⟨headerSize, bytes.length⟩ := by
    simpa only [InBounds, setPayloadSize, hlength] using hb
  have hwrite : write (setPayloadSize (UInt16.ofNat bytes.length) b) headerSize bytes = some _ := if_pos hin
  have hread := read_write hwrite
  refine ⟨_, hwrite, ⟨hread.1.trans hlength, ?_, fun f hf => ?_, ?_⟩, hread.2⟩
  · rw [getPayloadSize, get_write hwrite, setPayloadSize, get_set_self hheader (UInt16.toNat_lt _), hvalue]
  · rw [get_write hwrite, setPayloadSize, get_set_other hheader _ hf.symm]
  · rw [write_drop hwrite, setPayloadSize, ← List.drop_drop, set_drop hheader, List.drop_drop]

lemma getAcks_setAcks {b : Buffer} {acks : List UInt32} (hb : headerSize + acks.length * ackWidth ≤ b.length)
    (hsize : acks.length ≤ maxAcksSize) :
    ∃ c, setAcks acks b = some c ∧ SetSpec b c (acks.length * ackWidth) ∧ getAcks c = some acks := by
  have hbytes : acks.length * ackWidth < 2 ^ 16 := by
    simp only [maxAcksSize, ackWidth] at hsize ⊢
    omega
  rw [← encodeAcks_length] at hb hbytes ⊢
  obtain ⟨c, hwrite, hspec, hread⟩ := write_setPayloadSize hb hbytes
  have hcount : getPayloadSize c / ackWidth = acks.length := by
    rw [hspec.payloadSize, encodeAcks_length, Nat.mul_div_cancel _ (by decide)]
  refine ⟨c, ?_, hspec, ?_⟩
  · rw [setAcks, ← encodeAcks_length, hwrite]
  · rw [getAcks, acksSpan, hcount, ← encodeAcks_length, hread, Option.map_some, decodeAcks_encodeAcks]

lemma getPayload_setPayload {b : Buffer} {payload : List UInt8} (hb : headerSize + payload.length ≤ b.length)
    (hsize : payload.length ≤ maxPayloadSize) :
    ∃ c, setPayload payload b = some c ∧ SetSpec b c payload.length ∧ getPayload c = some payload := by
  have hbytes : payload.length < 2 ^ 16 := by
    simp only [maxPayloadSize] at hsize
    omega
  obtain ⟨c, hwrite, hspec, hread⟩ := write_setPayloadSize hb hbytes
  refine ⟨c, hwrite, hspec, ?_⟩
  rw [getPayload, payloadSpan, hspec.payloadSize, hread]

end Buffer

inductive HeaderCall
  | setMagic
  | setPacketType (type : UInt16)
  | setSrcConnectionID (connectionId : UInt16)
  | setDstConnectionID (connectionId : UInt16)
  | setSeqNumber (seq : UInt32)
  | setAckNumber (ack : UInt32)
  | setPayloadSize (payloadSize : UInt16)

namespace HeaderCall

open Buffer

def apply (b : Buffer) : HeaderCall → Buffer
  | setMagic => Buffer.setMagic b
  | setPacketType type => Buffer.setPacketType type b
  | setSrcConnectionID connectionId => Buffer.setSrcConnectionID connectionId b
  | setDstConnectionID connectionId => Buffer.setDstConnectionID connectionId b
  | setSeqNumber seq => Buffer.setSeqNumber seq b
  | setAckNumber ack => Buffer.setAckNumber ack b
  | setPayloadSize payloadSize => Buffer.setPayloadSize payloadSize b

def field : HeaderCall → HeaderField
  | setMagic => .magic
  | setPacketType _ => .packetType
  | setSrcConnectionID _ => .srcConnectionID
  | setDstConnectionID _ => .dstConnectionID
  | setSeqNumber _ => .seqNumber
  | setAckNumber _ => .ackNumber
  | setPayloadSize _ => .payloadSize

def value : HeaderCall → ℕ
  | setMagic => magicNumber
  | setPacketType type => type.toNat
  | setSrcConnectionID connectionId => connectionId.toNat
  | setDstConnectionID connectionId => connectionId.toNat
  | setSeqNumber seq => seq.toNat
  | setAckNumber ack => ack.toNat
  | setPayloadSize payloadSize => payloadSize.toNat

/-- What the last call of a field's setter stored, or what the buffer held before. -/
def lastValue (f : HeaderField) (before : ℕ) : List HeaderCall → ℕ
  | [] => before
  | call :: calls => lastValue f (if call.field = f then call.value else before) calls

lemma apply_eq (b : Buffer) (call : HeaderCall) : call.apply b = set call.field call.value b := by
  cases call <;> rfl

lemma value_lt (call : HeaderCall) : call.value < 256 ^ call.field.width := by
  cases call with
  | setMagic => decide
  | setPacketType type => exact type.toNat_lt
  | setSrcConnectionID connectionId => exact connectionId.toNat_lt
  | setDstConnectionID connectionId => exact connectionId.toNat_lt
  | setSeqNumber seq => exact seq.toNat_lt
  | setAckNumber ack => exact ack.toNat_lt
  | setPayloadSize payloadSize => exact payloadSize.toNat_lt

lemma get_apply {b : Buffer} (hb : headerSize ≤ b.length) (call : HeaderCall) (f : HeaderField) :
    get f (call.apply b) = if call.field = f then call.value else get f b := by
  rw [apply_eq]
  split_ifs with hf
  · rw [← hf, get_set_self hb call.value_lt]
  · exact get_set_other hb _ hf

lemma foldl_apply {b : Buffer} (hb : headerSize ≤ b.length) (calls : List HeaderCall) :
    (calls.foldl apply b).length = b.length ∧ (calls.foldl apply b).drop headerSize = b.drop headerSize ∧
      ∀ f, get f (calls.foldl apply b) = lastValue f (get f b) calls := by
  induction calls generalizing b with
  | nil => exact ⟨rfl, rfl, fun _ => rfl⟩
  | cons call calls ih =>
    have hlength : (call.apply b).length = b.length := by rw [apply_eq, set_length hb]
    have hdrop : (call.apply b).drop headerSize = b.drop headerSize := by rw [apply_eq, set_drop hb]
    obtain ⟨hl, hd, hget⟩ := ih (hb.trans_eq hlength.symm)
    refine ⟨hl.trans hlength, hd.trans hdrop, fun f => ?_⟩
    rw [List.foldl_cons, hget, get_apply hb, lastValue]

theorem header_codec {b : Buffer} (hb : headerSize ≤ b.length) (calls : List HeaderCall) :
    (calls.foldl apply b).length = b.length ∧ (calls.foldl apply b).drop headerSize = b.drop headerSize ∧
      (∀ f, get f (calls.foldl apply b) = lastValue f (get f b) calls) ∧
      (isValid (calls.foldl apply b) ↔ lastValue .magic (get .magic b) calls = magicNumber) ∧
      (∀ acks : List UInt32, acks.length ≤ maxAcksSize → headerSize + acks.length * ackWidth ≤ b.length →
        ∃ c, setAcks acks b = some c ∧ SetSpec b c (acks.length * ackWidth) ∧ getAcks c = some acks) ∧
      ∀ payload : List UInt8, payload.length ≤ maxPayloadSize → headerSize + payload.length ≤ b.length →
        ∃ c, setPayload payload b = some c ∧ SetSpec b c payload.length ∧ getPayload c = some payload := by
  obtain ⟨hlength, hdrop, hget⟩ := foldl_apply hb calls
  refine ⟨hlength, hdrop, hget, ?_, fun acks hsize hfit => ?_, fun payload hsize hfit => ?_⟩
  · simp only [isValid, hlength, hb, hget, decide_true, Bool.true_and, beq_iff_eq]
  · exact getAcks_setAcks hfit hsize
  · exact getPayload_setPayload hfit hsize

def blankPacket : Buffer := List.replicate 1400 0

theorem header_codec_blank :
    getAckNumber ([setAckNumber 7, setMagic, setPacketType 8, setAckNumber 4294967295].foldl apply blankPacket) =
        4294967295 ∧
      ∃ c, setPayload [1, 2, 3] blankPacket = some c ∧ SetSpec blankPacket c 3 ∧ getPayload c = some [1, 2, 3] := by
  have hlength : blankPacket.length = 1400 := List.length_replicate
  obtain ⟨-, -, hget, -, -, hpayload⟩ := header_codec (b := blankPacket) (by rw [hlength]; decide)
    [setAckNumber 7, setMagic, setPacketType 8, setAckNumber 4294967295]
  refine ⟨?_, hpayload [1, 2, 3] (by decide) (by rw [hlength]; decide)⟩
  rw [getAckNumber, hget]
  rfl

end HeaderCall

end FastTransport.Protocol
