import FastTransport.Protocol.ConnectionReader
import FastTransport.Protocol.ConnectionWriter
import FastTransport.Protocol.Duplex

/-! A byte stream from `ConnectionWriter` to `ConnectionReader` over two connections and their network. -/

namespace FastTransport.Protocol

open Lib.Bytes Lib.Lists Lib.Runs

namespace ConnectionWriter

def WritePoint.packets : WritePoint → List Packet
  | .flushing after | .pushing after | .nextForFlush after | .waitingEmpty after => after.getD []
  | .queueing ps => ps
  | _ => []

/-- No packet comes into the writer without room for a byte. -/
def Event.Roomy : Event → Prop
  | .call (.packets ps) => ∀ p ∈ ps, p.payload ≠ []
  | .send2 freePackets => ∀ p ∈ freePackets, p.payload ≠ []
  | _ => True

structure Roomy (w : ConnectionWriter) : Prop where
  packets : ∀ p ∈ w.packets, p.payload ≠ []
  freePackets : ∀ p ∈ w.freePackets, p.payload ≠ []
  packetsToSend : ∀ p ∈ w.packetsToSend, p.payload ≠ []
  pickedUp : ∀ p ∈ w.pickedUp, p.payload ≠ []
  sent : ∀ p ∈ w.sent, p.payload ≠ []
  point : ∀ p ∈ WritePoint.packets w.point, p.payload ≠ []

section Steps

variable {w w' : ConnectionWriter}

lemma Roomy.getNextPacket (hw : w.Roomy) (h : w.getNextPacket = some w') : w'.Roomy := by
  rw [ConnectionWriter.getNextPacket] at h
  split_ifs at h
  · cases h
    exact ⟨hw.packets, hw.freePackets, hw.packetsToSend, hw.pickedUp, hw.sent, hw.point⟩
  · cases h
    refine ⟨fun p hp => ?_, by simp, hw.packetsToSend, hw.pickedUp, hw.sent, hw.point⟩
    exact (List.mem_append.mp hp).elim (hw.packets p) (hw.freePackets p)

lemma Roomy.copy (hw : w.Roomy) {b : UInt8} {bs : List UInt8} (hpoint : w.point = .copying (b :: bs))
    (h : w.writerStep = some w') : w'.Roomy := by
  simp only [ConnectionWriter.writerStep, hpoint] at h
  obtain ⟨packet, hcurrent, rfl⟩ := Option.map_eq_some_iff.mp h
  refine ⟨fun p hp => ?_, hw.freePackets, hw.packetsToSend, hw.pickedUp, hw.sent, fun p hp => ?_⟩
  · obtain ⟨k, hk, hget⟩ := List.getElem_of_mem hp
    simp only [List.getElem_modify] at hget
    split_ifs at hget
    · rw [← hget, Packet.withPayload_payload]
      exact overwrite_ne_nil (hw.packets _ (List.getElem_mem _)) _ _
    · exact hget ▸ hw.packets _ (List.getElem_mem _)
  · dsimp only at hp
    split_ifs at hp <;> cases hp

lemma Roomy.writerStep (hw : w.Roomy) (h : w.writerStep = some w') : w'.Roomy := by
  have hafter := hw.point
  cases hpoint : w.point with
  | idle => simp [ConnectionWriter.writerStep, hpoint] at h
  | copying src =>
    cases src with
    | nil =>
      simp only [ConnectionWriter.writerStep, hpoint] at h
      cases h
      exact ⟨hw.packets, hw.freePackets, hw.packetsToSend, hw.pickedUp, hw.sent, by simp [WritePoint.packets]⟩
    | cons b bs => exact hw.copy hpoint h
  | nextForWrite src =>
    simp only [ConnectionWriter.writerStep, hpoint] at h
    obtain ⟨v, hv, rfl⟩ := Option.map_eq_some_iff.mp h
    have hv := hw.getNextPacket hv
    exact ⟨hv.packets, hv.freePackets, hv.packetsToSend, hv.pickedUp, hv.sent, by simp [WritePoint.packets]⟩
  | flushing after =>
    simp only [hpoint, WritePoint.packets] at hafter
    simp only [ConnectionWriter.writerStep, hpoint] at h
    split_ifs at h <;> cases h
    · exact ⟨hw.packets, hw.freePackets, hw.packetsToSend, hw.pickedUp, hw.sent, hafter⟩
    · refine ⟨fun p hp => hw.packets p (List.mem_of_mem_drop hp), hw.freePackets, fun p hp => ?_, hw.pickedUp, hw.sent,
        hafter⟩
      exact (List.mem_append.mp hp).elim (hw.packetsToSend p) fun hp => hw.packets p (List.mem_of_mem_take hp)
  | pushing after =>
    simp only [hpoint, WritePoint.packets] at hafter
    simp only [ConnectionWriter.writerStep, hpoint] at h
    split_ifs at h with hzero
    · cases h
      exact ⟨hw.packets, hw.freePackets, hw.packetsToSend, hw.pickedUp, hw.sent, hafter⟩
    · obtain ⟨packet, hcurrent, rfl⟩ := Option.map_eq_some_iff.mp h
      refine ⟨hw.packets, hw.freePackets, fun p hp => ?_, hw.pickedUp, hw.sent, hafter⟩
      rcases List.mem_append.mp hp with hp | hp
      · exact hw.packetsToSend p hp
      · have hne := hw.packets _ (List.mem_of_getElem? hcurrent)
        rw [List.mem_singleton.mp hp, Packet.withPayload_payload, Ne, List.take_eq_nil_iff]
        simp [hzero, hne]
  | nextForFlush after =>
    simp only [hpoint, WritePoint.packets] at hafter
    simp only [ConnectionWriter.writerStep, hpoint] at h
    obtain ⟨v, hv, rfl⟩ := Option.map_eq_some_iff.mp h
    have hv := hw.getNextPacket hv
    exact ⟨fun p hp => hv.packets p (List.mem_of_mem_eraseIdx hp), hv.freePackets, hv.packetsToSend, hv.pickedUp,
      hv.sent, hafter⟩
  | waitingEmpty after =>
    simp only [hpoint, WritePoint.packets] at hafter
    simp only [ConnectionWriter.writerStep, hpoint] at h
    obtain ⟨-, he⟩ := Option.ite_none_right_eq_some.mp h
    cases he
    refine ⟨hw.packets, hw.freePackets, hw.packetsToSend, hw.pickedUp, hw.sent, ?_⟩
    cases after with
    | none => simp [WritePoint.packets]
    | some ps => exact hafter
  | queueing ps =>
    simp only [hpoint, WritePoint.packets] at hafter
    simp only [ConnectionWriter.writerStep, hpoint] at h
    cases h
    refine ⟨hw.packets, hw.freePackets, fun p hp => ?_, hw.pickedUp, hw.sent, by simp [WritePoint.packets]⟩
    exact (List.mem_append.mp hp).elim (hw.packetsToSend p) (hafter p)

lemma Roomy.step (hw : w.Roomy) {e : Event} (he : e.Roomy) (h : w.step e = some w') : w'.Roomy := by
  cases e with
  | call c =>
    obtain ⟨-, heq⟩ := Option.ite_none_right_eq_some.mp h
    cases heq
    cases c with
    | write src | flush => exact ⟨hw.packets, hw.freePackets, hw.packetsToSend, hw.pickedUp, hw.sent, by simp [begin, WritePoint.packets]⟩
    | packets ps => exact ⟨hw.packets, hw.freePackets, hw.packetsToSend, hw.pickedUp, hw.sent, he⟩
  | writer => exact hw.writerStep h
  | pickUp =>
    obtain ⟨-, heq⟩ := Option.ite_none_right_eq_some.mp h
    cases heq
    exact ⟨hw.packets, hw.freePackets, by simp, hw.packetsToSend, hw.sent, hw.point⟩
  | send2 freePackets =>
    obtain ⟨-, heq⟩ := Option.ite_none_left_eq_some.mp h
    cases heq
    refine ⟨hw.packets, fun p hp => ?_, hw.packetsToSend, by simp, fun p hp => ?_, hw.point⟩
    · exact (List.mem_append.mp hp).elim (hw.freePackets p) (he p)
    · exact (List.mem_append.mp hp).elim (hw.sent p) (hw.pickedUp p)

lemma roomy_path {supply : List Packet} (hsupply : ∀ p ∈ supply, p.payload ≠ []) {es : List Event}
    (h : Path ConnectionWriter.step (fun _ => Event.Roomy) (opened supply) es w) : w.Roomy := by
  refine h.invariant (fun v e v' hv he hstep => hv.step he hstep) ?_
  exact ⟨hsupply, by simp [opened], by simp [opened], by simp [opened], by simp [opened], by simp [opened, WritePoint.packets]⟩

end Steps

end ConnectionWriter

lemma payloadBytes_eq (ps : List Packet) : payloadBytes ps = (ps.map Packet.payload).flatten :=
  List.flatMap_def

namespace ConnectionReader

lemma Within.end_le {packets : List Packet} {start size : ℕ} (h : Within packets start size) :
    start + size ≤ (payloadBytes packets).length := by
  obtain ⟨before, p, after, rfl, -, -, hle⟩ := h
  simp only [payloadBytes_append, payloadBytes_cons, List.length_append]
  omega

lemma cut_prefix {packets : List Packet} {stream : List UInt8} (hp : payloadBytes packets <+: stream) {start : ℕ}
    {sizes : List ℕ} (h : EachWithin packets start sizes) :
    cut (payloadBytes packets) start sizes = cut stream start sizes := by
  induction sizes generalizing start with
  | nil => rfl
  | cons size sizes ih =>
    obtain ⟨rest, rfl⟩ := hp
    have hle := h.1.end_le
    rw [cut, cut, ih h.2, slice, slice, List.drop_append_of_le_length (by omega),
      List.take_append_of_le_length (by rw [List.length_drop]; omega)]

end ConnectionReader

namespace Duplex

/-- What one end writes, the other reads: never more than was written, in whole while each read stays within
a packet, and everything once nothing is left on the way. -/
theorem stream_arrives {key : Bool → ConnectionKey} {now threadCount : Bool → ℕ} {free : Bool → List Packet}
    {as : List (Bool × Station.Action)} {d : Duplex} (h : Path step Owns (create key now threadCount free) as d)
    (hlt : ∀ i, (d.station i).sent.length < seqLimit) (i : Bool) {supply : List Packet}
    (hsupply : ∀ p ∈ supply, p.payload ≠ []) {es : List ConnectionWriter.Event} {w : ConnectionWriter}
    (hw : Path ConnectionWriter.step (fun _ => ConnectionWriter.Event.Roomy) (ConnectionWriter.opened supply) es w)
    (hsent : (d.station i).sent = w.sent) {deliveries : List (List Packet)} (hd : ∀ ps ∈ deliveries, ps ≠ [])
    (hreceived : deliveries.flatten = (d.station !i).received) :
    payloadBytes (d.station !i).received <+: ConnectionWriter.streamOf es ∧
      (∀ sizes, (∃ fuel r', ConnectionReader.readAll fuel (ConnectionReader.opened deliveries) sizes =
          some (ConnectionReader.cut (ConnectionWriter.streamOf es) 0 sizes, r')) ↔
        ConnectionReader.EachWithin deliveries.flatten 0 sizes) ∧
      ((d.station !i).received.length = (d.station i).sent.length → w.pickedUp ++ w.packetsToSend = [] →
        w.written ++ w.pending = [] → payloadBytes (d.station !i).received = ConnectionWriter.streamOf es) := by
  have hd' := inv_path h hlt
  have hroomy := ConnectionWriter.roomy_path hsupply hw
  have hpayload : (d.station !i).received.map Packet.payload <+: w.sent.map Packet.payload := by
    have hpre := hd'.prefix_sent i
    rw [List.map_append, hsent] at hpre
    exact (List.prefix_append _ _).trans hpre
  have hstream := ((ConnectionWriter.streams_opened supply).run hw.run).bytes
  rw [List.nil_append, ConnectionWriter.queued, List.append_assoc w.sent, payloadBytes_append, List.append_assoc] at hstream
  have hbytes : payloadBytes (d.station !i).received <+: ConnectionWriter.streamOf es := by
    obtain ⟨rest, hrest⟩ := hpayload
    rw [← hstream, payloadBytes_eq, payloadBytes_eq w.sent, ← hrest, List.flatten_append, List.append_assoc]
    exact List.prefix_append _ _
  refine ⟨hbytes, fun sizes => ?_, fun hall hqueued hwritten => ?_⟩
  · have hp : ∀ p ∈ deliveries.flatten, p.payload ≠ [] := by
      intro p hp
      obtain ⟨q, hq, heq⟩ := List.mem_map.mp (hpayload.subset (List.mem_map_of_mem (hreceived ▸ hp)))
      exact heq ▸ hroomy.sent q hq
    have hfollows := ConnectionReader.follows_opened hd hp
    constructor
    · rintro ⟨fuel, r', hread⟩
      exact ConnectionReader.within_of_readAll hfollows hread
    · intro hwithin
      obtain ⟨r', hread⟩ := ConnectionReader.readAll_of_within hfollows hwithin
      rw [ConnectionReader.cut_prefix (hreceived ▸ hbytes) hwithin] at hread
      exact ⟨1, r', hread⟩
  · have heq := List.IsPrefix.eq_of_length hpayload (by rw [List.length_map, List.length_map, hall, hsent])
    rw [← hstream, hqueued, hwritten, payloadBytes_nil, List.append_nil, List.append_nil, payloadBytes_eq, heq,
      ← payloadBytes_eq]

def onePlace : List Packet := List.replicate 3 (.ofPayload [0])

def writing : List ConnectionWriter.Event :=
  [.call (.write [7, 8]), .writer, .writer, .writer, .writer, .writer, .call .flush, .writer, .pickUp, .writer, .send2 [],
    .writer]

theorem stream_arrives_session : ∃ d w, run step (create keys (fun _ => 0) (fun _ => 1) fun _ => [Packet.ofPayload []])
      session = some d ∧ run ConnectionWriter.step (ConnectionWriter.opened onePlace) writing = some w ∧
    payloadBytes (d.station true).received <+: ConnectionWriter.streamOf writing ∧
    (∃ fuel r', ConnectionReader.readAll fuel (ConnectionReader.opened [(d.station true).received]) [1] =
      some ([[7]], r')) ∧ w.written ++ w.pending = [] := by
  have hpath : ∃ d, Path step Owns (create keys (fun _ => 0) (fun _ => 1) fun _ => [Packet.ofPayload []]) session d ∧
      (d.station false).sent = [Packet.ofPayload [7], Packet.ofPayload [8]] ∧
      (∃ p, (d.station true).received = [p] ∧ p.payload = [7]) ∧ ∀ i, (d.station i).sent.length < seqLimit := by
    have hnew : ∀ a ∈ session, ∀ p ∈ a.2.data, p.ackNumber = 0 := by decide
    refine ⟨_, path_of_run rfl fun a ha _ p hp => Or.inl (hnew a ha p hp), rfl, ⟨_, rfl, rfl⟩, by decide⟩
  have hwriter : ∃ w, run ConnectionWriter.step (ConnectionWriter.opened onePlace) writing = some w ∧
      w.sent = [Packet.ofPayload [7], Packet.ofPayload [8]] ∧ w.written ++ w.pending = [] := ⟨_, rfl, rfl, rfl⟩
  obtain ⟨d, hd, hsent, ⟨p, hreceived, hseven⟩, hlt⟩ := hpath
  obtain ⟨w, hw, hwsent, hdone⟩ := hwriter
  have hroomy : ∀ e ∈ writing, e.Roomy := by
    simp [writing, ConnectionWriter.Event.Roomy]
  have hgroups : ∀ ps ∈ [(d.station true).received], ps ≠ [] := by
    simp [hreceived]
  obtain ⟨hpre, hreads, -⟩ := stream_arrives hd hlt false (by decide) (path_of_run hw fun e he _ => hroomy e he)
    (hsent.trans hwsent.symm) hgroups (by simp)
  refine ⟨d, w, hd.run, hw, hpre, (hreads [1]).mpr ⟨⟨[], p, [], ?_⟩, trivial⟩, hdone⟩
  simp [hreceived, hseven]

end Duplex

end FastTransport.Protocol
