import FastTransport.Protocol.MessageFrame
import FastTransport.Protocol.MessageReader

/-! Writing the fields of a message and reading them back. -/

namespace FastTransport.Protocol

open Lib.Bytes MessageWriter

inductive Field
  | trivial (bytes : List UInt8)
  | sequence (width size : ℕ) (bytes : List UInt8)
  | packets (ps : List Packet)
  deriving DecidableEq, Repr

inductive FieldType
  | trivial (size : ℕ)
  | sequence (width : ℕ)
  | packets
  deriving DecidableEq, Repr

namespace Field

def type : Field → FieldType
  | trivial bytes => .trivial bytes.length
  | sequence width _ _ => .sequence width
  | packets _ => .packets

def WellFormed : Field → Prop
  | trivial bytes => bytes ≠ []
  | sequence width size bytes => bytes.length = size * width ∧ size < 256 ^ sizeWidth
  | packets ps => ps.length < 256 ^ sizeWidth

def bytes : Field → List UInt8
  | trivial bytes => bytes
  | sequence _ size bytes => toBytes sizeWidth size ++ bytes
  | packets ps => toBytes sizeWidth ps.length

def isPackets : Field → Bool
  | packets _ => true
  | _ => false

end Field

namespace MessageWriter

def writeField (w : MessageWriter) : Field → Option MessageWriter
  | .trivial bytes => w.write bytes
  | .sequence _ size bytes => (w.write (toBytes sizeWidth size)).bind fun w' => w'.write bytes
  | .packets ps => w.writePackets ps

def writeFields : MessageWriter → List Field → Option MessageWriter
  | w, [] => some w
  | w, f :: fs => (w.writeField f).bind fun w' => writeFields w' fs

end MessageWriter

namespace MessageReader

def readField (r : MessageReader) : FieldType → Option (Field × MessageReader)
  | .trivial size => (r.read size).map fun v => (.trivial v.1, v.2)
  | .sequence width =>
    (r.read sizeWidth).bind fun s =>
      (s.2.read (ofBytes s.1 * width)).map fun v => (.sequence width (ofBytes s.1) v.1, v.2)
  | .packets => r.readPackets.map fun v => (.packets v.1, v.2)

def readFields : MessageReader → List FieldType → Option (List Field × MessageReader)
  | r, [] => some ([], r)
  | r, t :: ts =>
    (r.readField t).bind fun v => (readFields v.2 ts).map fun rest => (v.1 :: rest.1, rest.2)

end MessageReader

def roundTrip (supply : List Packet) (fields : List Field) : Option (List Field) :=
  ((create supply).writeFields fields).bind fun w =>
    w.getWritedPackets.bind fun written =>
      (MessageReader.create written.1).bind fun r =>
        (r.readFields (fields.map Field.type)).map Prod.fst

def Fits : List Packet → List Field → Prop
  | [], _ => False
  | first :: free, fields =>
    fields ≠ [] ∧ frameCountSize + (fields.flatMap Field.bytes).length ≤ first.payload.length ∧
      (∀ f ∈ fields.dropLast, f.isPackets = false) ∧
        ∀ ps, fields.getLast? = some (.packets ps) → ps ≠ [] ∧ free ≠ []

namespace MessageWriter

lemma write_fits {p : Packet} {rest : List Packet} {number offset : ℕ} {src : List UInt8}
    (h : offset + src.length ≤ p.payload.length) :
    write ⟨p :: rest, 0, number, offset⟩ src =
      some ⟨p.withPayload (overwrite p.payload offset src) :: rest, 0, number, offset + src.length⟩ := by
  cases src with
  | nil => rw [write_nil, overwrite_nil]; rfl
  | cons b bs =>
    rw [List.length_cons] at h
    have hmin : min (b :: bs).length (p.payload.length - offset) = (b :: bs).length :=
      Nat.min_eq_left (by rw [List.length_cons]; omega)
    rw [write, List.length_cons, List.length_cons, ← Nat.add_assoc, writeLoop]
    simp only [List.getElem?_cons_zero, Option.bind_some]
    rw [if_neg (by omega), Option.bind_some, if_neg (by simp only; omega)]
    simp only
    rw [hmin, List.take_length, List.drop_length, writeLoop]
    rfl

lemma writeField_fits {p : Packet} {rest : List Packet} {number offset : ℕ} {f : Field}
    (hf : f.isPackets = false) (h : offset + f.bytes.length ≤ p.payload.length) :
    writeField ⟨p :: rest, 0, number, offset⟩ f =
      some ⟨p.withPayload (overwrite p.payload offset f.bytes) :: rest, 0, number,
        offset + f.bytes.length⟩ := by
  cases f with
  | trivial bytes => exact write_fits h
  | sequence width size bytes =>
    rw [Field.bytes, List.length_append] at h
    have hsize : offset + (toBytes sizeWidth size).length ≤ p.payload.length := by omega
    have hbytes : offset + (toBytes sizeWidth size).length + bytes.length ≤
        (p.withPayload (overwrite p.payload offset (toBytes sizeWidth size))).payload.length := by
      rw [Packet.withPayload_payload, overwrite_length hsize]
      omega
    rw [writeField, write_fits hsize, Option.bind_some, write_fits hbytes, Packet.withPayload_payload,
      overwrite_append bytes hsize, Packet.withPayload_withPayload, Field.bytes, List.length_append,
      Nat.add_assoc]
  | packets ps => exact absurd hf (by simp [Field.isPackets])

lemma writeFields_fits {p : Packet} {rest : List Packet} {number offset : ℕ} {fs : List Field}
    (hfs : ∀ f ∈ fs, f.isPackets = false)
    (h : offset + (fs.flatMap Field.bytes).length ≤ p.payload.length) :
    writeFields ⟨p :: rest, 0, number, offset⟩ fs =
      some ⟨p.withPayload (overwrite p.payload offset (fs.flatMap Field.bytes)) :: rest, 0, number,
        offset + (fs.flatMap Field.bytes).length⟩ := by
  induction fs generalizing p offset with
  | nil => rw [writeFields, List.flatMap_nil, overwrite_nil]; rfl
  | cons f fs ih =>
    rw [List.flatMap_cons, List.length_append] at h
    have hf : offset + f.bytes.length ≤ p.payload.length := by omega
    have hrest : offset + f.bytes.length + (fs.flatMap Field.bytes).length ≤
        (p.withPayload (overwrite p.payload offset f.bytes)).payload.length := by
      rw [Packet.withPayload_payload, overwrite_length hf]
      omega
    rw [writeFields, writeField_fits (hfs f List.mem_cons_self) hf, Option.bind_some,
      ih (fun g hg => hfs g (List.mem_cons_of_mem f hg)) hrest, Packet.withPayload_payload,
      overwrite_append _ hf, Packet.withPayload_withPayload, List.flatMap_cons, List.length_append,
      Nat.add_assoc]

lemma writePackets_fits {p : Packet} {free ps : List Packet} {number offset : ℕ} (hfree : free ≠ [])
    (h : offset + sizeWidth ≤ p.payload.length) :
    writePackets ⟨p :: free, 0, number, offset⟩ ps =
      some ⟨p.withPayload (overwrite p.payload offset (toBytes sizeWidth ps.length)) :: (ps ++ free),
        1 + ps.length, (number + ps.length) % seqLimit, 0⟩ := by
  have hpos := List.length_pos_of_ne_nil hfree
  rw [writePackets, write_fits (by rwa [toBytes_length]), Option.bind_some,
    if_pos (by simp only [List.length_cons]; omega)]
  simp

lemma getWritedPackets_cons {p : Packet} {rest : List Packet} {packet number offset n : ℕ}
    (hn : (if offset = 0 ∧ packet ≠ 0 then packet - 1 else packet) = n)
    (hne : ¬ (packet = 0 ∧ offset = frameCountSize)) (hlt : n ≤ rest.length)
    (hp : frameCountSize ≤ p.payload.length) :
    getWritedPackets ⟨p :: rest, packet, number, offset⟩ =
      some (p.withPayload (overwrite p.payload 0 (toBytes frameCountSize number)) :: rest.take n,
        ⟨rest.drop n, 0, number, offset⟩) := by
  rw [getWritedPackets, if_neg hne]
  simp only [hn]
  rw [if_pos ⟨by rw [List.length_cons]; omega, hp⟩, List.take_succ_cons, List.drop_succ_cons]

lemma writeFields_append (w : MessageWriter) (fs gs : List Field) :
    w.writeFields (fs ++ gs) = (w.writeFields fs).bind fun w' => w'.writeFields gs := by
  induction fs generalizing w with
  | nil => rfl
  | cons f fs ih => simp only [List.cons_append, writeFields, ih, Option.bind_assoc]

end MessageWriter

namespace MessageReader

lemma read_fits {p : Packet} {rest : List Packet} {offset size : ℕ}
    (h : offset + size ≤ p.payload.length) :
    read ⟨p :: rest, 0, offset⟩ size = some (slice p.payload offset size, ⟨p :: rest, 0, offset + size⟩) := by
  cases size with
  | zero => rw [read, readLoop]; simp [slice]
  | succ size =>
    have hmin : min (size + 1) (p.payload.length - offset) = size + 1 := Nat.min_eq_left (by omega)
    rw [read, List.length_cons, ← Nat.add_assoc, readLoop]
    simp only [List.getElem?_cons_zero, Option.bind_some]
    rw [if_neg (by omega), Option.bind_some, if_neg (by simp only; omega)]
    simp only
    rw [hmin, Nat.sub_self, readLoop, Option.map_some, List.append_nil]

lemma readField_fits {p : Packet} {rest : List Packet} {offset : ℕ} {f : Field} (hw : f.WellFormed)
    (hf : f.isPackets = false) (h : offset + f.bytes.length ≤ p.payload.length)
    (hb : slice p.payload offset f.bytes.length = f.bytes) :
    readField ⟨p :: rest, 0, offset⟩ f.type = some (f, ⟨p :: rest, 0, offset + f.bytes.length⟩) := by
  cases f with
  | trivial bytes =>
    rw [Field.bytes] at h hb
    rw [Field.type, readField, read_fits h, Option.map_some, hb, Field.bytes]
  | sequence width size bytes =>
    obtain ⟨hlen, hsize⟩ := hw
    rw [Field.bytes, List.length_append, toBytes_length] at h
    rw [Field.bytes, List.length_append, toBytes_length, slice_append] at hb
    obtain ⟨hs, hb⟩ := List.append_inj hb (by rw [slice_length (by omega), toBytes_length])
    rw [Field.type, readField, read_fits (by omega), Option.bind_some]
    simp only
    rw [hs, ofBytes_toBytes_of_lt hsize, ← hlen, read_fits (by omega), Option.map_some, hb, Field.bytes,
      List.length_append, toBytes_length, Nat.add_assoc]
  | packets ps => exact absurd hf (by simp [Field.isPackets])

lemma readFields_fits {p : Packet} {rest : List Packet} {offset : ℕ} {fs : List Field}
    (hw : ∀ f ∈ fs, f.WellFormed) (hfs : ∀ f ∈ fs, f.isPackets = false)
    (h : offset + (fs.flatMap Field.bytes).length ≤ p.payload.length)
    (hb : slice p.payload offset (fs.flatMap Field.bytes).length = fs.flatMap Field.bytes) :
    readFields ⟨p :: rest, 0, offset⟩ (fs.map Field.type) =
      some (fs, ⟨p :: rest, 0, offset + (fs.flatMap Field.bytes).length⟩) := by
  induction fs generalizing offset with
  | nil => rfl
  | cons f fs ih =>
    rw [List.flatMap_cons, List.length_append] at h
    rw [List.flatMap_cons, List.length_append, slice_append] at hb
    obtain ⟨hf, hb⟩ := List.append_inj hb (by rw [slice_length (by omega)])
    rw [List.map_cons, readFields, readField_fits (hw f List.mem_cons_self) (hfs f List.mem_cons_self)
      (by omega) hf, Option.bind_some]
    simp only
    rw [ih (fun g hg => hw g (List.mem_cons_of_mem f hg)) (fun g hg => hfs g (List.mem_cons_of_mem f hg))
      (by omega) hb, Option.map_some, List.flatMap_cons, List.length_append, Nat.add_assoc]

lemma readPackets_fits {p : Packet} {ps : List Packet} {offset : ℕ} (hps : ps ≠ [])
    (hlen : ps.length < 256 ^ sizeWidth) (h : offset + sizeWidth ≤ p.payload.length)
    (hb : slice p.payload offset sizeWidth = toBytes sizeWidth ps.length) :
    readPackets ⟨p :: ps, 0, offset⟩ = some (ps, ⟨[p], 0, p.payload.length⟩) := by
  have hpos := List.length_pos_of_ne_nil hps
  rw [readPackets, read_fits h, Option.bind_some]
  simp only
  rw [if_pos (by rw [List.length_cons]; omega), hb, ofBytes_toBytes_of_lt hlen]
  simp

lemma readFields_append (r : MessageReader) (ts us : List FieldType) :
    r.readFields (ts ++ us) = (r.readFields ts).bind fun v =>
      (v.2.readFields us).map fun rest => (v.1 ++ rest.1, rest.2) := by
  induction ts generalizing r with
  | nil => simp [readFields]
  | cons t ts ih =>
    simp only [List.cons_append, readFields, ih, Option.map_bind, Option.bind_map, Option.bind_assoc,
      Function.comp_def, Option.map_map]

end MessageReader

lemma Field.bytes_ne_nil {f : Field} (hw : f.WellFormed) : f.bytes ≠ [] := by
  cases f with
  | trivial bytes => exact hw
  | sequence width size bytes => exact List.append_ne_nil_of_left_ne_nil (List.cons_ne_nil _ _) _
  | packets ps => exact List.cons_ne_nil _ _

def filledPacket (first : Packet) (bytes : List UInt8) (number : ℕ) : Packet :=
  first.withPayload
    (overwrite (overwrite first.payload frameCountSize bytes) 0 (toBytes frameCountSize number))

lemma filledPacket_payload_length {first : Packet} {bytes : List UInt8} {number : ℕ}
    (h : frameCountSize + bytes.length ≤ first.payload.length) :
    (filledPacket first bytes number).payload.length = first.payload.length := by
  have hl := overwrite_length h
  rw [filledPacket, Packet.withPayload_payload, overwrite_length, hl]
  rw [toBytes_length, hl]
  omega

lemma slice_filledPacket {first : Packet} {bytes : List UInt8} {number : ℕ}
    (h : frameCountSize + bytes.length ≤ first.payload.length) :
    slice (filledPacket first bytes number).payload frameCountSize bytes.length = bytes := by
  rw [filledPacket, Packet.withPayload_payload, slice_overwrite_disjoint]
  · exact slice_overwrite_self h
  · rw [toBytes_length, overwrite_length h]
    omega
  · exact Or.inr (by rw [toBytes_length, Nat.zero_add])

lemma roundTrip_bytes {first : Packet} {free : List Packet} {fs : List Field}
    (hw : ∀ f ∈ fs, f.WellFormed) (hne : fs ≠ []) (hfs : ∀ f ∈ fs, f.isPackets = false)
    (h : frameCountSize + (fs.flatMap Field.bytes).length ≤ first.payload.length) :
    roundTrip (first :: free) fs = some fs := by
  have hpos : 0 < (fs.flatMap Field.bytes).length := by
    obtain ⟨f, gs, rfl⟩ := List.exists_cons_of_ne_nil hne
    have hf := List.length_pos_of_ne_nil (Field.bytes_ne_nil (hw f List.mem_cons_self))
    rw [List.flatMap_cons, List.length_append]
    omega
  have hwritten : getWritedPackets ⟨first.withPayload (overwrite first.payload frameCountSize
      (fs.flatMap Field.bytes)) :: free, 0, 1, frameCountSize + (fs.flatMap Field.bytes).length⟩ =
      some ([filledPacket first (fs.flatMap Field.bytes) 1],
        ⟨free, 0, 1, frameCountSize + (fs.flatMap Field.bytes).length⟩) := by
    rw [getWritedPackets_cons (n := 0) (by simp) (by omega) (by omega)
      (by rw [Packet.withPayload_payload, overwrite_length h]; omega)]
    simp [filledPacket]
  rw [roundTrip, create, writeFields_fits hfs h, Option.bind_some, hwritten, Option.bind_some,
    MessageReader.create, if_neg (by simp), Option.bind_some,
    MessageReader.readFields_fits hw hfs (by rw [filledPacket_payload_length h]; exact h)
      (slice_filledPacket h), Option.map_some]

lemma roundTrip_bytes_packets {first : Packet} {free ps : List Packet} {fs : List Field}
    (hw : ∀ f ∈ fs, f.WellFormed) (hfs : ∀ f ∈ fs, f.isPackets = false)
    (hps : ps ≠ []) (hlen : ps.length < 256 ^ sizeWidth) (hfree : free ≠ [])
    (h : frameCountSize + ((fs ++ [Field.packets ps]).flatMap Field.bytes).length ≤ first.payload.length) :
    roundTrip (first :: free) (fs ++ [.packets ps]) = some (fs ++ [.packets ps]) := by
  set bytes := (fs ++ [Field.packets ps]).flatMap Field.bytes with hbytes
  have hsplit : bytes = fs.flatMap Field.bytes ++ toBytes sizeWidth ps.length := by
    simp [hbytes, Field.bytes]
  have hbl : bytes.length = (fs.flatMap Field.bytes).length + sizeWidth := by
    rw [hsplit, List.length_append, toBytes_length]
  have hfs4 : frameCountSize + (fs.flatMap Field.bytes).length ≤ first.payload.length := by omega
  have hwrite : (create (first :: free)).writeFields (fs ++ [.packets ps]) =
      some ⟨first.withPayload (overwrite first.payload frameCountSize bytes) :: (ps ++ free),
        1 + ps.length, (1 + ps.length) % seqLimit, 0⟩ := by
    rw [create, writeFields_append, writeFields_fits hfs hfs4, Option.bind_some, writeFields, writeField,
      writePackets_fits hfree (by rw [Packet.withPayload_payload, overwrite_length hfs4]; omega),
      Option.bind_some, writeFields, Packet.withPayload_payload, overwrite_append _ hfs4,
      Packet.withPayload_withPayload, hsplit]
  have hwritten : getWritedPackets ⟨first.withPayload (overwrite first.payload frameCountSize bytes) ::
      (ps ++ free), 1 + ps.length, (1 + ps.length) % seqLimit, 0⟩ =
      some (filledPacket first bytes ((1 + ps.length) % seqLimit) :: ps,
        ⟨free, 0, (1 + ps.length) % seqLimit, 0⟩) := by
    rw [getWritedPackets_cons (n := ps.length) (by rw [if_pos (by omega)]; omega) (by omega)
      (by rw [List.length_append]; omega) (by rw [Packet.withPayload_payload, overwrite_length h]; omega)]
    simp [filledPacket]
  have hs := @slice_filledPacket first bytes ((1 + ps.length) % seqLimit) h
  rw [hbl, slice_append, hsplit] at hs
  obtain ⟨hs, hs'⟩ := List.append_inj hs (by
    rw [slice_length]
    rw [← hsplit, filledPacket_payload_length h]
    omega)
  rw [roundTrip, hwrite, Option.bind_some, hwritten, Option.bind_some, MessageReader.create,
    if_neg (by simp), Option.bind_some, List.map_append, MessageReader.readFields_append,
    MessageReader.readFields_fits hw hfs (by rw [filledPacket_payload_length h]; omega)
      (by rw [hsplit]; exact hs), Option.bind_some]
  simp only [List.map_cons, List.map_nil, Field.type, MessageReader.readFields, MessageReader.readField]
  rw [MessageReader.readPackets_fits hps hlen (by rw [filledPacket_payload_length h]; omega)
    (by rw [hsplit]; exact hs')]
  rfl

theorem roundTrip_of_fits {supply : List Packet} {fields : List Field}
    (hw : ∀ f ∈ fields, f.WellFormed) (h : Fits supply fields) :
    roundTrip supply fields = some fields := by
  match supply with
  | [] => exact absurd h id
  | first :: free =>
    obtain ⟨hne, hroom, hbody, hlast⟩ := h
    obtain rfl | ⟨fs, f, rfl⟩ := List.eq_nil_or_concat fields
    · exact absurd rfl hne
    · rw [List.concat_eq_append] at *
      rw [List.dropLast_concat] at hbody
      simp only [List.forall_mem_append, List.forall_mem_singleton] at hw
      cases f with
      | packets ps =>
        obtain ⟨hps, hfree⟩ := hlast ps (by simp)
        exact roundTrip_bytes_packets hw.1 hbody hps hw.2 hfree hroom
      | _ =>
        refine roundTrip_bytes ?_ hne ?_ hroom
        · simpa only [List.forall_mem_append, List.forall_mem_singleton] using hw
        · simpa only [List.forall_mem_append, List.forall_mem_singleton] using ⟨hbody, rfl⟩

theorem roundTrip_one_packet_and_list :
    roundTrip (blankPackets 3 30) [.sequence 1 2 [104, 105], .trivial [7, 0], .packets (blankPackets 2 30)] =
      some [.sequence 1 2 [104, 105], .trivial [7, 0], .packets (blankPackets 2 30)] := by
  apply roundTrip_of_fits
  · simp [Field.WellFormed, blankPackets, sizeWidth]
  · exact ⟨by simp, by decide, by decide, by simp [blankPackets]⟩

theorem roundTrip_straddle_ne :
    ¬ ∀ (supply : List Packet) (fields : List Field), (∀ p ∈ supply, frameCountSize ≤ p.payload.length) →
      (∀ f ∈ fields, f.WellFormed) → (((create supply).writeFields fields).bind getWritedPackets).isSome →
        roundTrip supply fields = some fields := by
  intro hall
  have hc := hall (blankPackets 4 8) [.trivial [1, 2, 3, 4], .trivial [5, 6]] (by decide)
    (by simp [Field.WellFormed]) (by decide)
  revert hc
  decide

end FastTransport.Protocol
