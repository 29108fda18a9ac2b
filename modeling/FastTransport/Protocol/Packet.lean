import Mathlib

/-! The packet as the queues, states and messages above the socket see it. -/

namespace FastTransport.Protocol

inductive PacketType
  | none | syn | ack | synAck | data | sack | fin | close
  deriving DecidableEq, Repr

def maxAcksSize : ℕ := 300

def maxPayloadSize : ℕ := 1300

/-- Sequence numbers and their counters are unsigned 32-bit. -/
def seqLimit : ℕ := 2 ^ 32

structure Packet where
  packetType : PacketType
  srcConnectionID : ℕ
  dstConnectionID : ℕ
  seqNumber : ℕ
  ackNumber : ℕ
  acks : List ℕ
  payload : List UInt8
  dstAddr : ℕ
  deriving DecidableEq, Repr

namespace Packet

def ofPayload (payload : List UInt8) : Packet := ⟨.none, 0, 0, 0, 0, [], payload, 0⟩

def withPayload (p : Packet) (payload : List UInt8) : Packet := { p with payload := payload }

@[simp] lemma withPayload_payload (p : Packet) (payload : List UInt8) :
    (p.withPayload payload).payload = payload := rfl

@[simp] lemma withPayload_withPayload (p : Packet) (payload payload' : List UInt8) :
    (p.withPayload payload).withPayload payload' = p.withPayload payload' := rfl

end Packet

def payloadBytes (ps : List Packet) : List UInt8 := ps.flatMap Packet.payload

@[simp] lemma payloadBytes_nil : payloadBytes [] = [] := rfl

@[simp] lemma payloadBytes_cons (p : Packet) (ps : List Packet) : payloadBytes (p :: ps) = p.payload ++ payloadBytes ps :=
  List.flatMap_cons ..

@[simp] lemma payloadBytes_append (ps ps' : List Packet) : payloadBytes (ps ++ ps') = payloadBytes ps ++ payloadBytes ps' :=
  List.flatMap_append ..

end FastTransport.Protocol
