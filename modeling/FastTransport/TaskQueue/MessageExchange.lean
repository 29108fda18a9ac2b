import FastTransport.Protocol.Duplex
import FastTransport.Protocol.PayloadReads
import FastTransport.TaskQueue.Messages

/-! The messages that the jobs of one end write, send over a connection, and that the read job of the
other end cuts out of what arrives and hands to the jobs that read them. -/

namespace FastTransport.TaskQueue

open Containers Protocol Lib.Bytes Lib.Runs

namespace Message

def strip (m : Message) : Message := { m with packets := m.packets.map Packet.strip }

end Message

/-- A reading that looks at no header: what it reads next depends on the bytes it has read. -/
def Reading.ByBytes : Reading → Prop
  | done => True
  | next _ rest => (∀ f, (rest f).ByBytes) ∧ ∀ f f' : Field, f.bytes = f'.bytes → rest f = rest f'

lemma byBytes_all {types : List FieldType} {rest : Reading} (h : rest.ByBytes) : (Reading.all types rest).ByBytes := by
  induction types with
  | nil => exact h
  | cons type types ih => exact ⟨fun _ => ih, fun _ _ _ => rfl⟩

variable {n : ℕ}

lemma byBytes_unlessError {rest : Reading} (h : rest.ByBytes) : (unlessError n rest).ByBytes := by
  refine ⟨fun f => ?_, fun f f' hf => by simp only [hf]⟩
  dsimp only
  split_ifs
  · trivial
  · exact h

lemma byBytes_reads (type : MessageType) : (reads n type).ByBytes := by
  cases type <;> simp only [reads] <;> try exact byBytes_all trivial
  all_goals first
    | exact trivial
    | exact byBytes_all (byBytes_unlessError (byBytes_all trivial))

lemma byBytes_receive : (receive n).ByBytes := by
  refine ⟨fun f => ?_, fun f f' hf => by simp only [hf]⟩
  dsimp only
  split
  · exact byBytes_reads _
  · trivial

lemma follow_strip {reading : Reading} (h : reading.ByBytes) (r : MessageReader) :
    follow r.strip reading = (follow r reading).map fun x => (x.1.map Field.strip, x.2.strip) := by
  induction reading generalizing r with
  | done => rfl
  | next type rest ih =>
    rw [follow, follow, MessageReader.strip_readField]
    cases r.readField type with
    | none => rfl
    | some v =>
      have hrest := h.2 v.1.strip v.1 (Field.strip_bytes v.1)
      simp only [Option.map_some, Option.bind_some, hrest, ih v.1 (h.1 v.1), Option.map_map]
      rfl

def decode (n : ℕ) (packets : List Packet) : Option (List Field) :=
  (MessageReader.create packets).bind fun r => (follow r (receive n)).map Prod.fst

lemma decode_strip (packets : List Packet) :
    decode n (packets.map Packet.strip) = (decode n packets).map fun fields => fields.map Field.strip := by
  rw [decode, decode, MessageReader.strip_create]
  cases MessageReader.create packets with
  | none => rfl
  | some r =>
    simp only [Option.map_some, Option.bind_some, follow_strip byBytes_receive, Option.map_map]
    rfl

def written (supply : List Packet) (m : Sent n) : Option (List Packet) :=
  ((MessageWriter.create supply).writeFields m.fields).bind fun w => w.getWritedPackets.map Prod.fst

structure Sendable (supply : List Packet) (m : Sent n) : Prop where
  wellFormed : ∀ f ∈ m.fields, f.WellFormed
  fits : Fits supply m.fields
  inStep : m.InStep

def Sent.type : Sent n → MessageType
  | requestGetAttr .. => .requestGetAttr
  | responseGetAttr .. => .responseGetAttr
  | requestLookup .. => .requestLookup
  | responseLookup .. => .responseLookup
  | requestOpen .. => .requestOpen
  | responseOpen .. => .responseOpen
  | requestOpenDir .. => .requestOpenDir
  | responseOpenDir .. => .responseOpenDir
  | requestRelease .. => .requestRelease
  | responseRelease .. => .responseRelease
  | requestReleaseDir .. => .requestReleaseDir
  | responseReleaseDir .. => .responseReleaseDir
  | requestRead .. => .requestRead
  | responseRead .. => .responseRead
  | requestReadDir .. => .requestReadDir
  | responseReadDir .. => .responseReadDir
  | requestReadDirPlus .. => .requestReadDirPlus
  | responseReadDirPlus .. => .responseReadDirPlus
  | requestForgetMulti .. => .requestForgetMulti
  | responseForgetMulti .. => .responseForgetMulti
  | notifyInvalInode .. => .notifyInvalInode
  | notifyInvalEntry .. => .notifyInvalEntry

lemma Sent.fields_eq (m : Sent n) : ∃ rest, m.fields = m.type.field :: rest := by
  cases m <;> exact ⟨_, rfl⟩

lemma slice_frameCount {first : Packet} {bytes : List UInt8} (number : ℕ)
    (h : frameCountSize + bytes.length ≤ first.payload.length) :
    slice (filledPacket first bytes number).payload 0 frameCountSize = toBytes frameCountSize number := by
  have hroom : 0 + (toBytes frameCountSize number).length ≤
      (overwrite first.payload frameCountSize bytes).length := by
    rw [overwrite_length h, toBytes_length]
    omega
  have hself := slice_overwrite_self hroom
  rwa [toBytes_length] at hself

/-- The packets of a message: a first packet with their number, and those of its packet list. -/
structure Writes (supply : List Packet) (fields : List Field) (front : Packet) (rest : List Packet) : Prop where
  written : ((MessageWriter.create supply).writeFields fields).bind (fun w => w.getWritedPackets.map Prod.fst) =
    some (front :: rest)
  length : frameCountSize ≤ front.payload.length
  count : slice front.payload 0 frameCountSize = toBytes frameCountSize ((1 + rest.length) % seqLimit)
  read : ∃ r r', MessageReader.create (front :: rest) = some r ∧
    r.readFields (fields.map Field.type) = some (fields, r')

lemma writes_of_roundTrip {first : Packet} {free rest : List Packet} {fields : List Field} {number : ℕ}
    {w v : MessageWriter} (hroom : frameCountSize + (fields.flatMap Field.bytes).length ≤ first.payload.length)
    (hround : roundTrip (first :: free) fields = some fields)
    (hw : (MessageWriter.create (first :: free)).writeFields fields = some w)
    (hv : w.getWritedPackets = some (filledPacket first (fields.flatMap Field.bytes) number :: rest, v))
    (hnumber : number = (1 + rest.length) % seqLimit) :
    Writes (first :: free) fields (filledPacket first (fields.flatMap Field.bytes) number) rest := by
  refine ⟨by rw [hw, Option.bind_some, hv, Option.map_some], ?_, ?_, ?_⟩
  · rw [filledPacket_payload_length hroom]
    omega
  · rw [slice_frameCount number hroom, hnumber]
  · rw [roundTrip, hw, Option.bind_some, hv, Option.bind_some] at hround
    obtain ⟨r, hr, hround⟩ := Option.bind_eq_some_iff.mp hround
    obtain ⟨x, hx, heq⟩ := Option.map_eq_some_iff.mp hround
    exact ⟨r, x.2, hr, by rw [hx, ← heq]⟩

lemma writes_bytes {first : Packet} {free : List Packet} {fields : List Field} (hw : ∀ f ∈ fields, f.WellFormed)
    (hne : fields ≠ []) (hfs : ∀ f ∈ fields, f.isPackets = false)
    (hroom : frameCountSize + (fields.flatMap Field.bytes).length ≤ first.payload.length) :
    Writes (first :: free) fields (filledPacket first (fields.flatMap Field.bytes) 1) [] := by
  have hpos : 0 < (fields.flatMap Field.bytes).length := by
    obtain ⟨f, gs, rfl⟩ := List.exists_cons_of_ne_nil hne
    have hf := List.length_pos_of_ne_nil (Field.bytes_ne_nil (hw f List.mem_cons_self))
    rw [List.flatMap_cons, List.length_append]
    omega
  refine @writes_of_roundTrip first free [] fields 1 _
    ⟨free, 0, 1, frameCountSize + (fields.flatMap Field.bytes).length⟩ hroom (roundTrip_bytes hw hne hfs hroom)
    (MessageWriter.writeFields_fits hfs hroom) ?_ (by decide)
  · rw [MessageWriter.getWritedPackets_cons (n := 0) (by simp) (by omega) (by omega)
      (by rw [Packet.withPayload_payload, overwrite_length hroom]; omega)]
    simp [filledPacket]

lemma writes_packets {first : Packet} {free ps : List Packet} {fs : List Field} (hw : ∀ f ∈ fs, f.WellFormed)
    (hfs : ∀ f ∈ fs, f.isPackets = false) (hps : ps ≠ []) (hlen : ps.length < 256 ^ sizeWidth) (hfree : free ≠ [])
    (hroom : frameCountSize + ((fs ++ [Field.packets ps]).flatMap Field.bytes).length ≤ first.payload.length) :
    Writes (first :: free) (fs ++ [.packets ps])
      (filledPacket first ((fs ++ [Field.packets ps]).flatMap Field.bytes) ((1 + ps.length) % seqLimit)) ps := by
  have hsplit : (fs ++ [Field.packets ps]).flatMap Field.bytes =
      fs.flatMap Field.bytes ++ toBytes sizeWidth ps.length := by
    simp [Field.bytes]
  have hlength : ((fs ++ [Field.packets ps]).flatMap Field.bytes).length = (fs.flatMap Field.bytes).length + sizeWidth := by
    rw [hsplit, List.length_append, toBytes_length]
  have hbody : frameCountSize + (fs.flatMap Field.bytes).length ≤ first.payload.length := by omega
  have hwrite : (MessageWriter.create (first :: free)).writeFields (fs ++ [.packets ps]) =
      some ⟨first.withPayload (overwrite first.payload frameCountSize ((fs ++ [Field.packets ps]).flatMap Field.bytes)) ::
        (ps ++ free), 1 + ps.length, (1 + ps.length) % seqLimit, 0⟩ := by
    rw [MessageWriter.create, MessageWriter.writeFields_append, MessageWriter.writeFields_fits hfs hbody,
      Option.bind_some, MessageWriter.writeFields, MessageWriter.writeField,
      MessageWriter.writePackets_fits hfree (by rw [Packet.withPayload_payload, overwrite_length hbody]; omega),
      Option.bind_some, MessageWriter.writeFields, Packet.withPayload_payload, overwrite_append _ hbody,
      Packet.withPayload_withPayload, hsplit]
  refine writes_of_roundTrip (v := ⟨free, 0, (1 + ps.length) % seqLimit, 0⟩) hroom
    (roundTrip_bytes_packets hw hfs hps hlen hfree hroom) hwrite ?_ rfl
  · rw [MessageWriter.getWritedPackets_cons (n := ps.length) (by rw [if_pos (by omega)]; omega) (by omega)
      (by rw [List.length_append]; omega) (by rw [Packet.withPayload_payload, overwrite_length hroom]; omega)]
    simp [filledPacket]

lemma exists_writes {supply : List Packet} {fields : List Field} (hw : ∀ f ∈ fields, f.WellFormed)
    (h : Fits supply fields) : ∃ front rest, Writes supply fields front rest := by
  match supply with
  | [] => exact absurd h id
  | first :: free =>
    obtain ⟨hne, hroom, hbody, hlast⟩ := h
    obtain rfl | ⟨fs, f, rfl⟩ := List.eq_nil_or_concat fields
    · exact absurd rfl hne
    · rw [List.concat_eq_append] at *
      rw [List.dropLast_concat] at hbody
      by_cases hf : f.isPackets = false
      · refine ⟨_, _, writes_bytes hw hne ?_ hroom⟩
        rw [List.forall_mem_append, List.forall_mem_singleton]
        exact ⟨hbody, hf⟩
      · cases f with
        | packets ps =>
          obtain ⟨hps, hfree⟩ := hlast ps (by simp)
          rw [List.forall_mem_append, List.forall_mem_singleton] at hw
          exact ⟨_, _, writes_packets hw.1 hbody hps hw.2 hfree hroom⟩
        | _ => exact absurd rfl hf

namespace MessageTypeReadJob

lemma readType_strip (packets : List Packet) : readType (packets.map Packet.strip) = readType packets := by
  rw [readType, readType, MessageReader.strip_create]
  cases MessageReader.create packets with
  | none => rfl
  | some r =>
    simp only [Option.map_some, Option.bind_some, MessageReader.strip_read]
    cases r.read MessageType.size <;> rfl

lemma framed_strip (m : Message) : Framed m.strip ↔ Framed m := by
  have hsize : ∀ p : Packet, messageSize p.strip = messageSize p := fun p => rfl
  rw [Framed, Framed, Message.strip, readType_strip]
  refine and_congr_left fun _ => ?_
  cases hp : m.packets with
  | nil => simp
  | cons front rest => simp [hsize]

lemma exists_relabelled {ms : List Message} (hms : ∀ m ∈ ms, Framed m) {stream : List Packet}
    (h : stream.map Packet.payload = (ms.flatMap Message.packets).map Packet.payload) :
    ∃ ms' : List Message, ms'.flatMap Message.packets = stream ∧ (∀ m ∈ ms', Framed m) ∧
      ms'.map Message.strip = ms.map Message.strip := by
  induction ms generalizing stream with
  | nil => exact ⟨[], by simpa using h.symm, by simp, rfl⟩
  | cons m ms ih =>
    rw [List.flatMap_cons, List.map_append] at h
    have hlen := congrArg List.length h
    simp only [List.length_map, List.length_append] at hlen
    have htake : (stream.take m.packets.length).map Packet.payload = m.packets.map Packet.payload := by
      rw [List.map_take, h, List.take_left' (List.length_map _)]
    have hdrop : (stream.drop m.packets.length).map Packet.payload =
        (ms.flatMap Message.packets).map Packet.payload := by
      rw [List.map_drop, h, List.drop_left' (List.length_map _)]
    obtain ⟨ms', hflat, hframed, hstrip⟩ := ih (fun m' hm' => hms m' (List.mem_cons_of_mem m hm')) hdrop
    have hsame : Message.strip { m with packets := stream.take m.packets.length } = m.strip := by
      simp only [Message.strip, map_strip_eq htake]
    refine ⟨{ m with packets := stream.take m.packets.length } :: ms', ?_, ?_, ?_⟩
    · rw [List.flatMap_cons, hflat, List.take_append_drop]
    · refine List.forall_mem_cons.mpr ⟨?_, hframed⟩
      rw [← framed_strip, hsame, framed_strip]
      exact hms m List.mem_cons_self
    · rw [List.map_cons, List.map_cons, hsame, hstrip]

lemma framed_of_sendable {supply packets : List Packet} {m : Sent n} (hm : Sendable supply m)
    (hw : written supply m = some packets) (hlt : packets.length < seqLimit) :
    Framed ⟨m.type, packets⟩ ∧ decode n packets = some m.fields := by
  obtain ⟨front, rest, hwrites⟩ := exists_writes hm.wellFormed hm.fits
  have heq : front :: rest = packets := Option.some.inj (hwrites.written.symm.trans hw)
  subst heq
  obtain ⟨r, r', hr, hread⟩ := hwrites.read
  obtain ⟨fields, hfields⟩ := m.fields_eq
  constructor
  · refine ⟨⟨front, rest, rfl, ?_⟩, ?_⟩
    · have hnumber : (1 + rest.length) % seqLimit = (front :: rest).length := by
        rw [List.length_cons, Nat.add_comm] at hlt
        rw [Nat.mod_eq_of_lt hlt, List.length_cons, Nat.add_comm]
      rw [messageSize, if_pos hwrites.length, hwrites.count, hnumber, ofBytes_toBytes_of_lt hlt]
    · rw [hfields, List.map_cons, MessageReader.readFields, MessageType.field_type] at hread
      obtain ⟨v, hv, hread⟩ := Option.bind_eq_some_iff.mp hread
      obtain ⟨x, -, hx⟩ := Option.map_eq_some_iff.mp hread
      obtain ⟨y, hy, rfl⟩ := Option.map_eq_some_iff.mp hv
      have hbytes : y.1 = m.type.field.bytes := congrArg (fun f => f.head?.elim [] Field.bytes) (Prod.mk.inj hx).1
      rw [readType, hr, Option.bind_some, hy, Option.bind_some, hbytes, ofBytes_field, MessageType.ofValue_value]
  · rw [decode, hr, Option.bind_some, ((agrees_iff_inStep m).mpr hm.inStep).follow hread, Option.map_some]

end MessageTypeReadJob

def sends (i : Bool) (as : List (Bool × Station.Action)) : List (List Packet) :=
  as.filterMap fun a =>
    match a.2 with
    | .send data => if i = a.1 then some data else none
    | _ => none

lemma sent_eq_sends {ok : Duplex → Bool × Station.Action → Prop} {d d' : Duplex} {as : List (Bool × Station.Action)}
    (h : Path Duplex.step ok d as d') (i : Bool) :
    (d'.station i).sent = (d.station i).sent ++ (sends i as).flatten := by
  induction h with
  | nil d => simp [sends]
  | @cons s t u a as _ hstep _ ih =>
    have hone : (sends i [a]).flatten = if i = a.1 then a.2.data else [] := by
      obtain ⟨j, a⟩ := a
      cases a <;> by_cases hi : i = j <;> simp [sends, hi, Station.Action.data]
    have hcons : sends i (a :: as) = sends i [a] ++ sends i as := List.filterMap_append (l := [a])
    rw [ih, Duplex.step_sent hstep, hcons, List.flatten_append, hone, List.append_assoc]

def content (n : ℕ) (m : Message) : Option (List Field) :=
  (decode n m.packets).map fun fields => fields.map Field.strip

lemma content_strip (m : Message) : content n m = decode n m.strip.packets := (decode_strip m.packets).symm

lemma exists_messages {jobs : List (List Packet × Sent n)} (hjobs : ∀ job ∈ jobs, Sendable job.1 job.2)
    {packets : List (List Packet)} (hw : packets.map some = jobs.map fun job => written job.1 job.2)
    (hlt : packets.flatten.length < seqLimit) :
    ∃ ms : List Message, (∀ m ∈ ms, MessageTypeReadJob.Framed m) ∧ ms.flatMap Message.packets = packets.flatten ∧
      ms.map (content n) = jobs.map fun job => some (job.2.fields.map Field.strip) := by
  induction jobs generalizing packets with
  | nil =>
    rw [List.map_nil, List.map_eq_nil_iff] at hw
    exact ⟨[], by simp, by simp [hw], rfl⟩
  | cons job jobs ih =>
    cases packets with
    | nil => cases hw
    | cons ps packets =>
      rw [List.map_cons, List.map_cons, List.cons.injEq] at hw
      rw [List.flatten_cons, List.length_append] at hlt
      obtain ⟨hjob, hrest⟩ := List.forall_mem_cons.mp hjobs
      obtain ⟨hframed, hdecode⟩ := MessageTypeReadJob.framed_of_sendable hjob hw.1.symm (by omega)
      obtain ⟨ms, hms, hflat, hcontent⟩ := ih hrest hw.2 (by omega)
      refine ⟨⟨job.2.type, ps⟩ :: ms, List.forall_mem_cons.mpr ⟨hframed, hms⟩, ?_, ?_⟩
      · rw [List.flatMap_cons, hflat, List.flatten_cons]
      · rw [List.map_cons, List.map_cons, hcontent, content, hdecode, Option.map_some]

section

variable {key : Bool → ConnectionKey} {now threadCount : Bool → ℕ} {free : Bool → List Packet}
  {as : List (Bool × Station.Action)} {d : Duplex}

lemma exists_cuts (h : Path Duplex.step Duplex.Owns (Duplex.create key now threadCount free) as d)
    (hlt : ∀ i, (d.station i).sent.length < seqLimit) (i : Bool) {jobs : List (List Packet × Sent n)}
    (hjobs : ∀ job ∈ jobs, Sendable job.1 job.2)
    (hsent : (sends i as).map some = jobs.map fun job => written job.1 job.2)
    {batches : List (MultiList Packet)} (hb : ∀ b ∈ batches, b.Inv)
    (hrecv : batches.flatMap MultiList.contents = (d.station !i).received) :
    ∃ ms produced kept, MessageTypeReadJob.readNetwork (batches.length + (d.station !i).received.length + 1)
        MultiList.empty batches = some (produced, kept) ∧
      MessageTypeReadJob.Cuts ms (d.station !i).received produced kept ∧
      ms.map (content n) = jobs.map (fun job => some (job.2.fields.map Field.strip)) ∧
      ((d.station !i).received.length = (d.station i).sent.length →
        (d.station !i).received = ms.flatMap Message.packets) := by
  have hs := Duplex.inv_path h hlt i
  have hflat : (d.station i).sent = (sends i as).flatten := sent_eq_sends h i
  obtain ⟨ms, hms, hpackets, hcontent⟩ := exists_messages hjobs hsent (by rw [← hflat]; exact hlt i)
  -- The stream as it is numbered, with what still waits for a number behind it.
  have hpayload : (Link.stamp 0 (d.station i).numbered ++ (d.station i).connection.sendUserData).map Packet.payload =
      (ms.flatMap Message.packets).map Packet.payload := by
    rw [List.map_append, Link.payload_stamp, ← List.map_append, hs.payload, hpackets, hflat]
  obtain ⟨ms', hflat', hms', hstrip⟩ := MessageTypeReadJob.exists_relabelled hms hpayload
  have hpending : MessageTypeReadJob.pending MultiList.empty batches = (d.station !i).received := by
    rw [MessageTypeReadJob.pending, MultiList.empty_related.2, List.nil_append, hrecv]
  have hpre : (d.station !i).received <+: ms'.flatMap Message.packets := by
    rw [hflat']
    have hdelivered : (d.station !i).received <+: Link.stamp 0 (d.station i).numbered :=
      (List.prefix_append _ _).trans (hs.link.delivered ▸ List.take_prefix _ _)
    exact hdelivered.trans (List.prefix_append _ _)
  have hfuel : batches.length + (MessageTypeReadJob.pending MultiList.empty batches).length <
      batches.length + (d.station !i).received.length + 1 := by
    rw [hpending]
    exact Nat.lt_succ_self _
  obtain ⟨produced, kept, hread, hcuts⟩ :=
    MessageTypeReadJob.readNetwork_spec MultiList.inv_empty hb hms' (hpending ▸ hpre) hfuel
  rw [hpending] at hcuts
  refine ⟨ms', produced, kept, hread, hcuts, ?_, fun hlength => ?_⟩
  · have hsame := congrArg (List.map fun m => decode n m.packets) hstrip
    simp only [List.map_map, Function.comp_def, ← content_strip] at hsame
    rw [← hcontent]
    exact hsame
  · have hlengths := congrArg List.length hpayload
    rw [List.length_map, List.length_map, hpackets, ← hflat, ← hlength, ← hflat'] at hlengths
    exact List.IsPrefix.eq_of_length hpre hlengths.symm

/-- The messages one end sends are read at the other field by field, in order, none twice and none in
part; once all packets have been received, all are. -/
theorem messages_arrive (h : Path Duplex.step Duplex.Owns (Duplex.create key now threadCount free) as d)
    (hlt : ∀ i, (d.station i).sent.length < seqLimit) (i : Bool) {jobs : List (List Packet × Sent n)}
    (hjobs : ∀ job ∈ jobs, Sendable job.1 job.2)
    (hsent : (sends i as).map some = jobs.map fun job => written job.1 job.2)
    {batches : List (MultiList Packet)} (hb : ∀ b ∈ batches, b.Inv)
    (hrecv : batches.flatMap MultiList.contents = (d.station !i).received) :
    ∃ produced kept, MessageTypeReadJob.readNetwork (batches.length + (d.station !i).received.length + 1)
        MultiList.empty batches = some (produced, kept) ∧
      produced.map (content n) <+: jobs.map (fun job => some (job.2.fields.map Field.strip)) ∧
      ((d.station !i).received.length = (d.station i).sent.length →
        produced.length = jobs.length ∧ kept.contents = []) := by
  obtain ⟨ms, produced, kept, hread, hcuts, hall, hreceived⟩ := exists_cuts h hlt i hjobs hsent hb hrecv
  refine ⟨produced, kept, hread, ?_, fun hlength => ?_⟩
  · rw [← hall]
    exact hcuts.produced_prefix.map _
  · rw [hreceived hlength] at hcuts
    obtain ⟨rfl, hkept⟩ := hcuts.complete
    have hcount := congrArg List.length hall
    rw [List.length_map, List.length_map] at hcount
    exact ⟨hcount, hkept⟩

end

def jobs : List (List Packet × Sent 40) :=
  [(MessageWriter.blankPackets 1 20, .notifyInvalInode 513), (MessageWriter.blankPackets 2 40, .responseReadDir 7 (MessageWriter.blankPackets 1 40))]

def letters : List (List Packet) := jobs.filterMap fun job => written job.1 job.2

def backwards : List (Bool × Station.Action) :=
  [(true, .onReceive 3 6), (true, .onReceive 2 7), (true, .onReceive 1 8), (true, .processRecvPackets), (true, .recv)]

def exchange : List (Bool × Station.Action) :=
  Duplex.handshake ++ letters.map (fun packets => (false, Station.Action.send packets)) ++ Duplex.pumps false 5 ++
    backwards

theorem messages_arrive_exchange :
    ∃ d, Path Duplex.step Duplex.Owns
        (Duplex.create Duplex.keys (fun _ => 0) (fun _ => 1) fun _ => [Packet.ofPayload []]) exchange d ∧
      ∃ produced kept, MessageTypeReadJob.readNetwork 5 MultiList.empty [⟨[(d.station true).received], 3⟩] =
          some (produced, kept) ∧
        produced.map (content 40) <+: jobs.map (fun job => some (job.2.fields.map Field.strip)) ∧
        produced.length = 2 := by
  have hpath : ∃ d, Path Duplex.step Duplex.Owns
        (Duplex.create Duplex.keys (fun _ => 0) (fun _ => 1) fun _ => [Packet.ofPayload []]) exchange d ∧
      ((d.station true).received.length = 3 ∧ (d.station false).sent.length = 3) ∧
      ∀ i, (d.station i).sent.length < seqLimit := by
    have hnew : ∀ a ∈ exchange, ∀ p ∈ a.2.data, p.ackNumber = 0 := by decide
    refine ⟨_, path_of_run rfl fun a ha _ p hp => Or.inl (hnew a ha p hp), ⟨rfl, rfl⟩, by decide⟩
  obtain ⟨d, hd, ⟨hreceived, hsent⟩, hlt⟩ := hpath
  have hjobs : ∀ job ∈ jobs, Sendable job.1 job.2 := by
    refine List.forall_mem_cons.mpr ⟨⟨?_, ⟨by decide, by decide, by decide, ?_⟩, trivial⟩, List.forall_mem_singleton.mpr
      ⟨?_, ⟨by decide, by decide, by decide, ?_⟩, trivial⟩⟩
    · simp [Sent.fields, Field.WellFormed, MessageType.field, put, toBytes, MessageType.size, CType.sizeof]
    · intro ps hps
      cases hps
    · simp [Sent.fields, Field.WellFormed, MessageType.field, put, toBytes, MessageType.size, CType.sizeof,
        MessageWriter.blankPackets, sizeWidth]
    · intro ps hps
      cases hps
      decide
  have hinv : ∀ b ∈ [(⟨[(d.station true).received], 3⟩ : MultiList Packet)], b.Inv := by
    refine List.forall_mem_singleton.mpr ⟨?_, by simp [MultiList.contents, hreceived]⟩
    simp [MultiList.Chunked, hreceived, MultiList.chunkSize]
  obtain ⟨produced, kept, hread, hpre, hall⟩ :=
    messages_arrive hd hlt false hjobs rfl hinv (by simp [MultiList.contents])
  rw [Bool.not_false, hreceived] at hread
  exact ⟨d, hd, produced, kept, hread, hpre, (hall (by rw [Bool.not_false, hreceived, hsent])).1⟩

end FastTransport.TaskQueue
