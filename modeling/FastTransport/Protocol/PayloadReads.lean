import FastTransport.Protocol.MessageRoundTrip

/-! What a reader makes of a message depends on the payloads of its packets, not on their headers. -/

namespace FastTransport.Protocol

open Lib.Bytes

def Packet.strip (p : Packet) : Packet := .ofPayload p.payload

@[simp] lemma Packet.strip_payload (p : Packet) : p.strip.payload = p.payload := rfl

lemma map_strip_eq {ps qs : List Packet} (h : ps.map Packet.payload = qs.map Packet.payload) :
    ps.map Packet.strip = qs.map Packet.strip := by
  have hmap := congrArg (List.map Packet.ofPayload) h
  rwa [List.map_map, List.map_map] at hmap

def Field.strip : Field → Field
  | .packets ps => .packets (ps.map Packet.strip)
  | f => f

@[simp] lemma Field.strip_bytes (f : Field) : f.strip.bytes = f.bytes := by
  cases f <;> simp [Field.strip, Field.bytes]

namespace MessageReader

def strip (r : MessageReader) : MessageReader := { r with packets := r.packets.map Packet.strip }

@[simp] lemma strip_packets (r : MessageReader) : r.strip.packets = r.packets.map Packet.strip := rfl

@[simp] lemma strip_packet (r : MessageReader) : r.strip.packet = r.packet := rfl

@[simp] lemma strip_offset (r : MessageReader) : r.strip.offset = r.offset := rfl

lemma strip_create (ps : List Packet) : create (ps.map Packet.strip) = (create ps).map strip := by
  cases ps <;> rfl

lemma strip_getNextPacket (r : MessageReader) : r.strip.getNextPacket = r.getNextPacket.map strip := by
  simp only [getNextPacket, strip, List.length_map]
  split_ifs <;> rfl

lemma strip_readLoop (fuel : ℕ) (r : MessageReader) (size : ℕ) :
    r.strip.readLoop fuel size = (r.readLoop fuel size).map fun x => (x.1, x.2.strip) := by
  induction fuel generalizing r size with
  | zero => cases size <;> rfl
  | succ fuel ih =>
    cases size with
    | zero => rfl
    | succ size =>
      rw [readLoop, readLoop, strip_packets, strip_packet, List.getElem?_map]
      cases r.packets[r.packet]? with
      | none => rfl
      | some packet =>
        have hnext : (if r.strip.offset = packet.strip.payload.length then r.strip.getNextPacket else some r.strip) =
            (if r.offset = packet.payload.length then r.getNextPacket else some r).map strip := by
          rw [strip_getNextPacket, strip_offset, Packet.strip_payload]
          split_ifs <;> rfl
        simp only [Option.map_some, Option.bind_some]
        rw [hnext]
        cases (if r.offset = packet.payload.length then r.getNextPacket else some r) with
        | none => rfl
        | some r' =>
          simp only [Option.map_some, Option.bind_some]
          by_cases hlt : packet.payload.length < r'.offset
          · have hstrip : packet.strip.payload.length < r'.strip.offset := hlt
            rw [if_pos hlt, if_pos hstrip, Option.map_none]
          · have hstrip : ¬ packet.strip.payload.length < r'.strip.offset := hlt
            rw [if_neg hlt, if_neg hstrip]
            have hrest := ih { r' with offset := r'.offset + min (size + 1) (packet.payload.length - r'.offset) }
              (size + 1 - min (size + 1) (packet.payload.length - r'.offset))
            refine (congrArg (Option.map _) hrest).trans ?_
            rw [Option.map_map, Option.map_map]
            rfl

lemma strip_read (r : MessageReader) (size : ℕ) :
    r.strip.read size = (r.read size).map fun x => (x.1, x.2.strip) := by
  rw [read, read, ← strip_readLoop]
  simp [strip]

lemma strip_readPackets (r : MessageReader) :
    r.strip.readPackets = r.readPackets.map fun x => (x.1.map Packet.strip, x.2.strip) := by
  rw [readPackets, readPackets, strip_read]
  cases r.read sizeWidth with
  | none => rfl
  | some size =>
    simp only [Option.map_some, Option.bind_some, strip, List.length_map]
    split_ifs with hlt
    · have hpackets : ((size.2.packets.map Packet.strip).take (size.2.packet + 1) ++
          ((size.2.packets.map Packet.strip).drop (size.2.packet + 1)).drop (ofBytes size.1)) =
            (size.2.packets.take (size.2.packet + 1) ++
              (size.2.packets.drop (size.2.packet + 1)).drop (ofBytes size.1)).map Packet.strip := by
        simp only [List.map_append, List.map_take, List.map_drop]
      rw [hpackets, List.getElem?_map, Option.map_map, Option.map_map]
      simp only [Function.comp_def, Packet.strip_payload, List.map_take, List.map_drop]
    · rfl

lemma strip_readField (r : MessageReader) (t : FieldType) :
    r.strip.readField t = (r.readField t).map fun x => (x.1.strip, x.2.strip) := by
  cases t with
  | trivial size =>
    simp only [readField, strip_read, Option.map_map]
    rfl
  | sequence width =>
    simp only [readField, strip_read, Option.bind_map, Option.map_bind, Option.map_map, Function.comp_def]
    rfl
  | packets =>
    simp only [readField, strip_readPackets, Option.map_map]
    rfl

end MessageReader

end FastTransport.Protocol
