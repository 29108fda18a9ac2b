import FastTransport.Lib.Bytes
import FastTransport.Lib.Lists
import FastTransport.Lib.Runs
import FastTransport.Protocol.Packet

/-! `ConnectionWriter`: bytes are written into a supply of packets, and the filled ones go through
the queue of the send thread to the connection. Each step is one access to a shared list. -/

namespace FastTransport.Protocol

open Lib.Bytes Lib.Lists Lib.Runs

/-- Where the writing thread stands. A flush made by `operator<<` goes on to queue its packets. -/
inductive WritePoint
  | idle
  | copying (src : List UInt8)
  | nextForWrite (src : List UInt8)
  | flushing (after : Option (List Packet))
  | pushing (after : Option (List Packet))
  | nextForFlush (after : Option (List Packet))
  | waitingEmpty (after : Option (List Packet))
  | queueing (packets : List Packet)
  deriving DecidableEq, Repr

structure ConnectionWriter where
  packets : List Packet
  packet : ℕ
  offset : ℕ
  freePackets : List Packet
  packetsToSend : List Packet
  pickedUp : List Packet
  sent : List Packet
  point : WritePoint
  deriving DecidableEq, Repr

namespace ConnectionWriter

inductive Call
  | write (src : List UInt8)
  | flush
  | packets (ps : List Packet)
  deriving DecidableEq, Repr

inductive Event
  | call (c : Call)
  | writer
  | pickUp
  | send2 (freePackets : List Packet)
  deriving DecidableEq, Repr

def opened (supply : List Packet) : ConnectionWriter := ⟨supply, 0, 0, [], [], [], [], .idle⟩

/-- `none` while the free list is empty: the writing thread waits. -/
def getNextPacket (w : ConnectionWriter) : Option ConnectionWriter :=
  if w.packet + 1 < w.packets.length then some { w with packet := w.packet + 1, offset := 0 }
  else if w.freePackets.isEmpty then none
  else some { w with packets := w.packets ++ w.freePackets
                     freePackets := []
                     packet := w.packet + 1
                     offset := 0 }

def begin (w : ConnectionWriter) : Call → ConnectionWriter
  | .write src => { w with point := .copying src }
  | .flush => { w with point := .flushing none }
  | .packets ps => { w with point := .flushing (some ps) }

def writerStep (w : ConnectionWriter) : Option ConnectionWriter :=
  match w.point with
  | .idle => none
  | .copying [] => some { w with point := .idle }
  | .copying src@(_ :: _) =>
    (w.packets[w.packet]?).map fun packet =>
      let writeSize := min src.length (packet.payload.length - w.offset)
      { w with packets := w.packets.modify w.packet fun p =>
                 p.withPayload (overwrite p.payload w.offset (src.take writeSize))
               offset := w.offset + writeSize
               point := if w.offset + writeSize = packet.payload.length then .nextForWrite (src.drop writeSize)
                 else .copying (src.drop writeSize) }
  | .nextForWrite src => w.getNextPacket.map fun w' => { w' with point := .copying src }
  | .flushing after =>
    if w.packet = 0 then some { w with point := .pushing after }
    else some { w with packets := w.packets.drop w.packet
                       packet := 0
                       packetsToSend := w.packetsToSend ++ w.packets.take w.packet
                       point := .pushing after }
  | .pushing after =>
    if w.offset = 0 then some { w with point := .waitingEmpty after }
    else (w.packets[w.packet]?).map fun packet =>
      { w with packetsToSend := w.packetsToSend ++ [packet.withPayload (packet.payload.take w.offset)]
               point := .nextForFlush after }
  | .nextForFlush after =>
    w.getNextPacket.map fun w' =>
      { w' with packets := w'.packets.eraseIdx w.packet, packet := w.packet, point := .waitingEmpty after }
  | .waitingEmpty after =>
    if w.packetsToSend.isEmpty then
      some { w with point := match after with
                      | none => .idle
                      | some ps => .queueing ps }
    else none
  | .queueing ps => some { w with packetsToSend := w.packetsToSend ++ ps, point := .idle }

def step (w : ConnectionWriter) : Event → Option ConnectionWriter
  | .call c => if w.point = .idle then some (w.begin c) else none
  | .writer => w.writerStep
  | .pickUp =>
    if w.pickedUp.isEmpty ∧ !w.packetsToSend.isEmpty then
      some { w with pickedUp := w.packetsToSend, packetsToSend := [] }
    else none
  | .send2 freePackets =>
    if w.pickedUp.isEmpty then none
    else some { w with sent := w.sent ++ w.pickedUp
                       pickedUp := []
                       freePackets := w.freePackets ++ freePackets }

def Call.bytes : Call → List UInt8
  | .write src => src
  | .flush => []
  | .packets ps => payloadBytes ps

def streamOf (es : List Event) : List UInt8 :=
  es.flatMap fun e => match e with
    | .call c => c.bytes
    | _ => []

def filled (w : ConnectionWriter) : List UInt8 :=
  payloadBytes (w.packets.take w.packet) ++ (w.packets[w.packet]?).elim [] fun p => p.payload.take w.offset

/-- The bytes that stand in the writer's own packets: the current one may have been pushed already. -/
def written (w : ConnectionWriter) : List UInt8 :=
  match w.point with
  | .nextForFlush _ => []
  | _ => w.filled

def pending (w : ConnectionWriter) : List UInt8 :=
  match w.point with
  | .copying src | .nextForWrite src => src
  | .flushing after | .pushing after | .nextForFlush after | .waitingEmpty after => payloadBytes (after.getD [])
  | .queueing ps => payloadBytes ps
  | .idle => []

def queued (w : ConnectionWriter) : List UInt8 := payloadBytes (w.sent ++ w.pickedUp ++ w.packetsToSend)

def AtPoint (w : ConnectionWriter) : Prop :=
  match w.point with
  | .nextForWrite _ => ∃ p, w.packets[w.packet]? = some p ∧ w.offset = p.payload.length
  | .pushing _ | .nextForFlush _ => w.packet = 0
  | .waitingEmpty _ | .queueing _ => w.packet = 0 ∧ w.offset = 0
  | .idle | .copying _ | .flushing _ => True

structure Streams (stream : List UInt8) (w : ConnectionWriter) : Prop where
  bytes : w.queued ++ (w.written ++ w.pending) = stream
  offset_le : ∀ p, w.packets[w.packet]? = some p → w.offset ≤ p.payload.length
  atPoint : w.AtPoint

lemma filled_eq {w : ConnectionWriter} {p : Packet} (h : w.packets[w.packet]? = some p) :
    w.filled = payloadBytes (w.packets.take w.packet) ++ p.payload.take w.offset := by
  rw [filled, h, Option.elim_some]

lemma filled_start {w : ConnectionWriter} (hp : w.packet = 0) (ho : w.offset = 0) : w.filled = [] := by
  rw [filled, hp, ho, List.take_zero, payloadBytes_nil, List.nil_append]
  cases w.packets[0]? <;> rfl

lemma getNextPacket_cases {w w' : ConnectionWriter} (h : w.getNextPacket = some w') :
    ∃ more free, w' = { w with packets := w.packets ++ more, freePackets := free, packet := w.packet + 1, offset := 0 } := by
  rw [getNextPacket] at h
  split_ifs at h
  · cases h
    exact ⟨[], w.freePackets, by rw [List.append_nil]⟩
  · cases h
    exact ⟨w.freePackets, [], rfl⟩

lemma take_overwrite {xs : List UInt8} (ys : List UInt8) {offset : ℕ} (h : offset ≤ xs.length) :
    (overwrite xs offset ys).take (offset + ys.length) = xs.take offset ++ ys := by
  have hl : (xs.take offset ++ ys).length = offset + ys.length := by
    rw [List.length_append, List.length_take, Nat.min_eq_left h]
  rw [overwrite, ← hl, List.take_left]

section Steps

variable {stream : List UInt8} {w w' : ConnectionWriter}

lemma Streams.begin (hw : Streams stream w) (hidle : w.point = .idle) (c : Call) :
    Streams (stream ++ c.bytes) (w.begin c) := by
  have hb := hw.bytes
  simp only [written, pending, hidle, List.append_nil] at hb
  cases c with
  | write src =>
    refine ⟨?_, hw.offset_le, trivial⟩
    rw [← hb, List.append_assoc]
    rfl
  | flush =>
    refine ⟨?_, hw.offset_le, trivial⟩
    rw [← hb, List.append_assoc]
    rfl
  | packets ps =>
    refine ⟨?_, hw.offset_le, trivial⟩
    rw [← hb, List.append_assoc]
    rfl

lemma Streams.pickUp (hw : Streams stream w) (h : w.step .pickUp = some w') : Streams stream w' := by
  obtain ⟨⟨hempty, _⟩, he⟩ := Option.ite_none_right_eq_some.mp h
  cases he
  refine ⟨?_, hw.offset_le, hw.atPoint⟩
  rw [← hw.bytes]
  simp only [queued, List.isEmpty_iff.mp hempty, List.append_nil]
  rfl

lemma Streams.send2 (hw : Streams stream w) {freePackets : List Packet} (h : w.step (.send2 freePackets) = some w') :
    Streams stream w' := by
  obtain ⟨_, he⟩ := Option.ite_none_left_eq_some.mp h
  cases he
  refine ⟨?_, hw.offset_le, hw.atPoint⟩
  rw [← hw.bytes]
  simp only [queued, List.append_nil]
  rfl

lemma Streams.copy (hw : Streams stream w) {b : UInt8} {bs : List UInt8} (hp : w.point = .copying (b :: bs))
    (h : w.writerStep = some w') : Streams stream w' := by
  have hb := hw.bytes
  simp only [written, pending, hp] at hb
  simp only [writerStep, hp] at h
  obtain ⟨p, hcurrent, rfl⟩ := Option.map_eq_some_iff.mp h
  have hle := hw.offset_le p hcurrent
  generalize hsize : min (b :: bs).length (p.payload.length - w.offset) = writeSize at hb ⊢
  have hlen : ((b :: bs).take writeSize).length = writeSize := by
    rw [List.length_take]
    omega
  have hnow : (w.packets.modify w.packet fun p =>
      p.withPayload (overwrite p.payload w.offset ((b :: bs).take writeSize)))[w.packet]? =
        some (p.withPayload (overwrite p.payload w.offset ((b :: bs).take writeSize))) := by
    rw [List.getElem?_modify_eq, hcurrent]
    rfl
  have hfull : (overwrite p.payload w.offset ((b :: bs).take writeSize)).length = p.payload.length :=
    overwrite_length (by omega)
  have hfilled : payloadBytes ((w.packets.modify w.packet fun p =>
      p.withPayload (overwrite p.payload w.offset ((b :: bs).take writeSize))).take w.packet) ++
        (overwrite p.payload w.offset ((b :: bs).take writeSize)).take (w.offset + writeSize) =
      w.filled ++ (b :: bs).take writeSize := by
    have htake := take_overwrite ((b :: bs).take writeSize) hle
    rw [hlen] at htake
    rw [take_modify _ _ le_rfl, htake, filled_eq hcurrent, List.append_assoc]
  rw [← List.take_append_drop writeSize (b :: bs), ← List.append_assoc w.filled, ← hfilled] at hb
  split_ifs with hend
  · refine ⟨?_, ?_, ?_⟩
    · rw [written, pending, filled_eq hnow]
      exact hb
    · intro q hq
      cases hnow.symm.trans hq
      rw [Packet.withPayload_payload, hfull]
      dsimp only
      omega
    · refine ⟨_, hnow, ?_⟩
      rw [Packet.withPayload_payload, hfull]
      exact hend
  · refine ⟨?_, ?_, trivial⟩
    · rw [written, pending, filled_eq hnow]
      exact hb
    · intro q hq
      cases hnow.symm.trans hq
      rw [Packet.withPayload_payload, hfull]
      dsimp only
      omega

lemma written_start (hp : w.packet = 0) (ho : w.offset = 0) : w.written = [] := by
  rw [written]
  split
  · rfl
  · exact filled_start hp ho

lemma streams_clean (hb : w.queued ++ w.pending = stream) (hp : w.packet = 0) (ho : w.offset = 0) (hat : w.AtPoint) :
    Streams stream w :=
  ⟨by rw [written_start hp ho, List.nil_append, hb], fun _ _ => ho ▸ Nat.zero_le _, hat⟩

lemma Streams.advance (hw : Streams stream w) {src : List UInt8} (hp : w.point = .nextForWrite src)
    (h : w.writerStep = some w') : Streams stream w' := by
  have hb := hw.bytes
  have hat := hw.atPoint
  simp only [AtPoint, hp] at hat
  obtain ⟨p, hcurrent, hoffset⟩ := hat
  simp only [written, pending, hp, filled_eq hcurrent] at hb
  rw [hoffset, List.take_length] at hb
  simp only [writerStep, hp] at h
  obtain ⟨v, hv, rfl⟩ := Option.map_eq_some_iff.mp h
  obtain ⟨more, free, rfl⟩ := getNextPacket_cases hv
  refine ⟨?_, fun _ _ => Nat.zero_le _, trivial⟩
  rw [← hb]
  have hlt := (List.getElem?_eq_some_iff.mp hcurrent).1
  have htake : (w.packets ++ more).take (w.packet + 1) = w.packets.take w.packet ++ [p] := by
    rw [List.take_append_of_le_length hlt, List.take_add_one, hcurrent]
    rfl
  have hempty : ∀ q : Option Packet, (q.elim [] fun p => p.payload.take 0) = [] := fun q => by cases q <;> rfl
  simp only [written, pending, filled, htake, hempty, payloadBytes_append, payloadBytes_cons, payloadBytes_nil, List.append_nil]
  rfl

lemma Streams.queueFull (hw : Streams stream w) {after : Option (List Packet)} (hp : w.point = .flushing after)
    (h : w.writerStep = some w') : Streams stream w' := by
  have hb := hw.bytes
  simp only [written, pending, hp] at hb
  simp only [writerStep, hp] at h
  split_ifs at h with hzero
  · cases h
    exact ⟨hb, hw.offset_le, hzero⟩
  · cases h
    refine ⟨?_, fun p hq => hw.offset_le p ?_, rfl⟩
    · rw [← hb]
      simp only [queued, written, pending, filled, List.take_zero, payloadBytes_nil, List.nil_append, List.getElem?_drop,
        Nat.add_zero, payloadBytes_append, List.append_assoc]
    · simpa only [List.getElem?_drop, Nat.add_zero] using hq

lemma Streams.push (hw : Streams stream w) {after : Option (List Packet)} (hp : w.point = .pushing after)
    (h : w.writerStep = some w') : Streams stream w' := by
  have hb := hw.bytes
  have hzero := hw.atPoint
  simp only [AtPoint, hp] at hzero
  simp only [written, pending, hp] at hb
  simp only [writerStep, hp] at h
  split_ifs at h with hoffset
  · cases h
    exact ⟨hb, hw.offset_le, hzero, hoffset⟩
  · obtain ⟨p, hcurrent, rfl⟩ := Option.map_eq_some_iff.mp h
    refine ⟨?_, hw.offset_le, hzero⟩
    rw [filled_eq hcurrent, hzero, List.take_zero, payloadBytes_nil, List.nil_append] at hb
    rw [← hb]
    simp only [queued, written, pending, payloadBytes_append, payloadBytes_cons, payloadBytes_nil, Packet.withPayload_payload,
      List.append_assoc, List.nil_append]

lemma Streams.replace (hw : Streams stream w) {after : Option (List Packet)} (hp : w.point = .nextForFlush after)
    (h : w.writerStep = some w') : Streams stream w' := by
  have hb := hw.bytes
  have hzero := hw.atPoint
  simp only [AtPoint, hp] at hzero
  simp only [written, pending, hp] at hb
  simp only [writerStep, hp] at h
  obtain ⟨v, hv, rfl⟩ := Option.map_eq_some_iff.mp h
  obtain ⟨more, free, rfl⟩ := getNextPacket_cases hv
  exact streams_clean hb hzero rfl ⟨hzero, rfl⟩

lemma Streams.finish (hw : Streams stream w) {after : Option (List Packet)} (hp : w.point = .waitingEmpty after)
    (h : w.writerStep = some w') : Streams stream w' := by
  have hb := hw.bytes
  have hclean := hw.atPoint
  simp only [AtPoint, hp] at hclean
  simp only [written, pending, hp] at hb
  simp only [writerStep, hp] at h
  obtain ⟨_, he⟩ := Option.ite_none_right_eq_some.mp h
  cases he
  cases after with
  | none => exact ⟨hb, hw.offset_le, trivial⟩
  | some ps => exact ⟨hb, hw.offset_le, hclean⟩

lemma Streams.queueList (hw : Streams stream w) {ps : List Packet} (hp : w.point = .queueing ps)
    (h : w.writerStep = some w') : Streams stream w' := by
  have hb := hw.bytes
  have hclean := hw.atPoint
  simp only [AtPoint, hp] at hclean
  simp only [written, pending, hp] at hb
  rw [filled_start hclean.1 hclean.2, List.nil_append] at hb
  simp only [writerStep, hp] at h
  cases h
  refine streams_clean ?_ hclean.1 hclean.2 trivial
  rw [← hb]
  simp only [queued, pending, payloadBytes_append, List.append_assoc, List.append_nil]

lemma Streams.writerStep (hw : Streams stream w) (h : w.writerStep = some w') : Streams stream w' := by
  cases hp : w.point with
  | idle => simp [ConnectionWriter.writerStep, hp] at h
  | copying src =>
    cases src with
    | nil =>
      have hb := hw.bytes
      simp only [written, pending, hp] at hb
      simp only [ConnectionWriter.writerStep, hp] at h
      cases h
      exact ⟨hb, hw.offset_le, trivial⟩
    | cons b bs => exact hw.copy hp h
  | nextForWrite src => exact hw.advance hp h
  | flushing after => exact hw.queueFull hp h
  | pushing after => exact hw.push hp h
  | nextForFlush after => exact hw.replace hp h
  | waitingEmpty after => exact hw.finish hp h
  | queueing ps => exact hw.queueList hp h

lemma Streams.step (hw : Streams stream w) {e : Event} (h : w.step e = some w') :
    Streams (stream ++ streamOf [e]) w' := by
  cases e with
  | call c =>
    obtain ⟨hidle, he⟩ := Option.ite_none_right_eq_some.mp h
    cases he
    have hs : streamOf [.call c] = c.bytes := List.append_nil _
    rw [hs]
    exact hw.begin hidle c
  | writer => exact (List.append_nil stream).symm ▸ hw.writerStep h
  | pickUp => exact (List.append_nil stream).symm ▸ hw.pickUp h
  | send2 freePackets => exact (List.append_nil stream).symm ▸ hw.send2 h

lemma streamOf_cons (e : Event) (es : List Event) : streamOf (e :: es) = streamOf [e] ++ streamOf es := by
  rw [streamOf, streamOf, streamOf, List.flatMap_cons, List.flatMap_singleton]

lemma Streams.run (hw : Streams stream w) {es : List Event} (h : run ConnectionWriter.step w es = some w') :
    Streams (stream ++ streamOf es) w' := by
  induction es generalizing stream w with
  | nil =>
    cases h
    exact (List.append_nil stream).symm ▸ hw
  | cons e es ih =>
    obtain ⟨v, hv, hr⟩ := run_cons_eq_some.mp h
    rw [streamOf_cons, ← List.append_assoc]
    exact ih (hw.step hv) hr

lemma streams_opened (supply : List Packet) : Streams [] (opened supply) :=
  streams_clean rfl rfl rfl trivial

end Steps

def Flushed (w : ConnectionWriter) : Prop :=
  match w.point with
  | .flushing none | .pushing none | .nextForFlush none | .waitingEmpty none => True
  | .idle => w.packetsToSend = [] ∧ w.packet = 0 ∧ w.offset = 0
  | _ => False

lemma Flushed.writerStep {w w' : ConnectionWriter} (hw : Flushed w) (hat : w.AtPoint)
    (h : w.writerStep = some w') : Flushed w' := by
  cases hp : w.point with
  | idle => simp [ConnectionWriter.writerStep, hp] at h
  | copying src | nextForWrite src | queueing ps => simp [Flushed, hp] at hw
  | flushing after =>
    cases after with
    | some ps => simp [Flushed, hp] at hw
    | none =>
      simp only [ConnectionWriter.writerStep, hp] at h
      split_ifs at h <;> cases h <;> trivial
  | pushing after =>
    cases after with
    | some ps => simp [Flushed, hp] at hw
    | none =>
      simp only [ConnectionWriter.writerStep, hp] at h
      split_ifs at h
      · cases h
        trivial
      · obtain ⟨p, _, rfl⟩ := Option.map_eq_some_iff.mp h
        trivial
  | nextForFlush after =>
    cases after with
    | some ps => simp [Flushed, hp] at hw
    | none =>
      simp only [ConnectionWriter.writerStep, hp] at h
      obtain ⟨v, _, rfl⟩ := Option.map_eq_some_iff.mp h
      trivial
  | waitingEmpty after =>
    cases after with
    | some ps => simp [Flushed, hp] at hw
    | none =>
      simp only [ConnectionWriter.writerStep, hp] at h
      simp only [AtPoint, hp] at hat
      obtain ⟨hempty, he⟩ := Option.ite_none_right_eq_some.mp h
      cases he
      exact ⟨List.isEmpty_iff.mp hempty, hat⟩

lemma Flushed.step {w w' : ConnectionWriter} (hw : Flushed w) (hat : w.AtPoint) {e : Event}
    (hcall : ∀ c, e ≠ .call c) (h : w.step e = some w') : Flushed w' := by
  cases e with
  | call c => exact absurd rfl (hcall c)
  | writer => exact hw.writerStep hat h
  | pickUp =>
    obtain ⟨_, he⟩ := Option.ite_none_right_eq_some.mp h
    cases he
    simp only [Flushed] at hw ⊢
    generalize w.point = point at hw ⊢
    split at hw
    · trivial
    · trivial
    · trivial
    · trivial
    · exact ⟨trivial, hw.2⟩
    · exact hw.elim
  | send2 freePackets =>
    obtain ⟨_, he⟩ := Option.ite_none_left_eq_some.mp h
    cases he
    exact hw

lemma Flushed.run {stream : List UInt8} {w w' : ConnectionWriter} (hw : Flushed w) (hs : Streams stream w)
    {es : List Event} (hcalls : ∀ c, .call c ∉ es) (h : run ConnectionWriter.step w es = some w') : Flushed w' := by
  induction es generalizing stream w with
  | nil =>
    cases h
    exact hw
  | cons e es ih =>
    obtain ⟨v, hv, hr⟩ := run_cons_eq_some.mp h
    refine ih (hw.step hs.atPoint (fun c he => hcalls c (he ▸ List.mem_cons_self)) hv) (hs.step hv) ?_ hr
    exact fun c hc => hcalls c (List.mem_cons_of_mem _ hc)

theorem byte_stream {supply : List Packet} {before after : List Event} {w : ConnectionWriter}
    (hrun : run step (opened supply) (before ++ .call .flush :: after) = some w) (hcalls : ∀ c, .call c ∉ after)
    (hreturned : w.point = .idle) :
    payloadBytes (w.sent ++ w.pickedUp) = streamOf (before ++ .call .flush :: after) ∧
      (w.pickedUp = [] → payloadBytes w.sent = streamOf (before ++ .call .flush :: after)) ∧
      w.packetsToSend = [] ∧ w.packet = 0 ∧ w.offset = 0 := by
  have hall := (streams_opened supply).run hrun
  obtain ⟨v, hbefore, hrest⟩ := run_append_eq_some.mp hrun
  obtain ⟨u, hflush, hafter⟩ := run_cons_eq_some.mp hrest
  have hu := ((streams_opened supply).run hbefore).step hflush
  have hstart : Flushed u := by
    obtain ⟨_, he⟩ := Option.ite_none_right_eq_some.mp hflush
    cases he
    trivial
  have hdone := hstart.run hu hcalls hafter
  simp only [Flushed, hreturned] at hdone
  obtain ⟨hqueue, hpacket, hoffset⟩ := hdone
  have hbytes := hall.bytes
  simp only [queued, written_start hpacket hoffset, pending, hreturned, hqueue, List.append_nil,
    List.nil_append] at hbytes
  refine ⟨hbytes, fun hsent => ?_, hqueue, hpacket, hoffset⟩
  rwa [hsent, List.append_nil] at hbytes

def threePackets : List Packet := List.replicate 3 (.ofPayload [0, 0, 0, 0])

def interleaved : List Event :=
  [.call (.write [1, 2, 3, 4, 5]), .writer, .writer, .writer, .writer, .call (.packets [.ofPayload [9]]), .writer,
    .pickUp, .writer, .writer, .send2 [], .pickUp, .writer, .writer]

theorem byte_stream_interleaved : ∃ w, run step (opened threePackets)
      (interleaved ++ .call .flush :: [.writer, .writer, .send2 [], .pickUp, .writer, .send2 []]) = some w ∧
    payloadBytes w.sent = [1, 2, 3, 4, 5, 9] := by
  have hrun : run step (opened threePackets)
      (interleaved ++ .call .flush :: [.writer, .writer, .send2 [], .pickUp, .writer, .send2 []]) = some _ := rfl
  exact ⟨_, hrun, (byte_stream hrun (by simp) rfl).2.1 rfl⟩

end ConnectionWriter

end FastTransport.Protocol
