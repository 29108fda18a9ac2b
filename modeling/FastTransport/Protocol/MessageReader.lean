import FastTransport.Lib.Bytes
import FastTransport.Protocol.MessageWriter

/-! `MessageReader`: the fields of a message are read back from its packets, again from a
current packet and an offset. -/

namespace FastTransport.Protocol

open Lib.Bytes

structure MessageReader where
  packets : List Packet
  packet : ℕ
  offset : ℕ
  deriving DecidableEq, Repr

namespace MessageReader

def create (packets : List Packet) : Option MessageReader :=
  if packets.isEmpty then none else some ⟨packets, 0, frameCountSize⟩

def getNextPacket (r : MessageReader) : Option MessageReader :=
  if r.packet + 1 < r.packets.length then some { r with packet := r.packet + 1, offset := 0 } else none

/-- As in the writer, a round reads from the packet that was current when it began. -/
def readLoop : ℕ → MessageReader → ℕ → Option (List UInt8 × MessageReader)
  | _, r, 0 => some ([], r)
  | 0, _, _ + 1 => none
  | fuel + 1, r, size@(_ + 1) =>
    (r.packets[r.packet]?).bind fun packet =>
      (if r.offset = packet.payload.length then r.getNextPacket else some r).bind fun r' =>
        if packet.payload.length < r'.offset then none
        else
          let readSize := min size (packet.payload.length - r'.offset)
          (readLoop fuel { r' with offset := r'.offset + readSize } (size - readSize)).map fun rest =>
            (slice packet.payload r'.offset readSize ++ rest.1, rest.2)

def read (r : MessageReader) (size : ℕ) : Option (List UInt8 × MessageReader) :=
  r.readLoop (size + r.packets.length) size

def readPackets (r : MessageReader) : Option (List Packet × MessageReader) :=
  (r.read sizeWidth).bind fun size =>
    let start := size.2.packet + 1
    if start < size.2.packets.length then
      let ps := (size.2.packets.drop start).take (ofBytes size.1)
      let packets := size.2.packets.take start ++ (size.2.packets.drop start).drop (ofBytes size.1)
      (packets[size.2.packet]?).map fun packet => (ps, ⟨packets, size.2.packet, packet.payload.length⟩)
    else none

def getFreePackets (r : MessageReader) : List Packet × MessageReader :=
  (r.packets.take r.packet, { r with packets := r.packets.drop r.packet, packet := 0 })

end MessageReader

end FastTransport.Protocol
