import FastTransport.Lib.Bytes
import FastTransport.Lib.Lists
import FastTransport.Protocol.Packet

/-! `ConnectionReader`: bytes are read from received packets, from a current packet and an offset.
A read that waits for packets that never come, or whose loop goes on for ever, returns with no
amount of fuel. -/

namespace FastTransport.Protocol

open Lib.Bytes Lib.Lists

structure ConnectionReader where
  packets : List Packet
  packet : ℕ
  offset : ℕ
  /-- What `Recv` is still going to return, call by call. -/
  deliveries : List (List Packet)
  deriving DecidableEq, Repr

namespace ConnectionReader

def opened (deliveries : List (List Packet)) : ConnectionReader := ⟨[], 0, 0, deliveries⟩

def recv (r : ConnectionReader) : Option ConnectionReader :=
  match r.deliveries with
  | [] => none
  | packets :: deliveries => some { r with packets := r.packets ++ packets, deliveries := deliveries }

def getNextPacket (r : ConnectionReader) : Option ConnectionReader :=
  (if r.packet + 1 < r.packets.length then some r else r.recv).map fun r' =>
    { r' with packet := r.packet + 1, offset := 0 }

/-- The loop stays with the packet that is current when it starts. -/
def readLoop (payload : List UInt8) : ℕ → ℕ → ℕ → Option (List UInt8 × ℕ)
  | _, offset, 0 => some ([], offset)
  | 0, _, _ + 1 => none
  | fuel + 1, offset, size@(_ + 1) =>
    let readSize := min size (payload.length - offset)
    (readLoop payload fuel (offset + readSize) (size - readSize)).map fun rest =>
      (slice payload offset readSize ++ rest.1, rest.2)

def prepare (r : ConnectionReader) : Option ConnectionReader :=
  (if r.packet = r.packets.length then r.recv.map fun r' => { r' with packet := 0 } else some r).bind fun r' =>
    (r'.packets[r'.packet]?).bind fun packet =>
      if r'.offset = packet.payload.length then r'.getNextPacket else some r'

def read (fuel : ℕ) (r : ConnectionReader) (size : ℕ) : Option (List UInt8 × ConnectionReader) :=
  r.prepare.bind fun r' => (r'.packets[r'.packet]?).bind fun packet =>
    (readLoop packet.payload fuel r'.offset size).map fun x => (x.1, { r' with offset := x.2 })

def readAll (fuel : ℕ) : ConnectionReader → List ℕ → Option (List (List UInt8) × ConnectionReader)
  | r, [] => some ([], r)
  | r, size :: sizes => (r.read fuel size).bind fun x => (readAll fuel x.2 sizes).map fun y => (x.1 :: y.1, y.2)

def cut (stream : List UInt8) : ℕ → List ℕ → List (List UInt8)
  | _, [] => []
  | start, size :: sizes => slice stream start size :: cut stream (start + size) sizes

/-- A read that begins before the last byte's end and ends in the packet in which it begins. -/
def Within (packets : List Packet) (start size : ℕ) : Prop :=
  ∃ before p after, packets = before ++ p :: after ∧ (payloadBytes before).length ≤ start ∧
    start < (payloadBytes before).length + p.payload.length ∧
    start + size ≤ (payloadBytes before).length + p.payload.length

def EachWithin (packets : List Packet) : ℕ → List ℕ → Prop
  | _, [] => True
  | start, size :: sizes => Within packets start size ∧ EachWithin packets (start + size) sizes

lemma readLoop_done {payload : List UInt8} (fuel : ℕ) {offset size : ℕ} (h : offset + size ≤ payload.length) :
    readLoop payload (fuel + 1) offset size = some (slice payload offset size, offset + size) := by
  cases size with
  | zero => rw [readLoop, slice, List.take_zero, Nat.add_zero]
  | succ size =>
    have hmin : min (size + 1) (payload.length - offset) = size + 1 := by omega
    rw [readLoop, hmin, Nat.sub_self, readLoop, Option.map_some, List.append_nil]

lemma readLoop_stuck {payload : List UInt8} (fuel : ℕ) {offset size : ℕ} (hle : offset ≤ payload.length)
    (h : payload.length < offset + size) : readLoop payload fuel offset size = none := by
  induction fuel generalizing offset size with
  | zero =>
    cases size with
    | zero => omega
    | succ size => rw [readLoop]
  | succ fuel ih =>
    cases size with
    | zero => omega
    | succ size =>
      have hmin : min (size + 1) (payload.length - offset) = payload.length - offset := by omega
      rw [readLoop, hmin, ih (by omega) (by omega), Option.map_none]

inductive Standing (r : ConnectionReader) (start : ℕ) : Prop
  | fresh : r.packets = [] → r.packet = 0 → r.offset = 0 → start = 0 → Standing r start
  | inside {before : List Packet} {p : Packet} {after : List Packet} : r.packets = before ++ p :: after →
      r.packet = before.length → r.offset ≤ p.payload.length →
      start = (payloadBytes before).length + r.offset → Standing r start

structure Follows (packets : List Packet) (r : ConnectionReader) (start : ℕ) : Prop where
  split : r.packets ++ r.deliveries.flatten = packets
  nonempty : ∀ d ∈ r.deliveries, d ≠ []
  payload_ne : ∀ p ∈ packets, p.payload ≠ []
  standing : Standing r start

structure Ready (packets : List Packet) (r : ConnectionReader) (start : ℕ) (before : List Packet) (p : Packet)
    (after : List Packet) : Prop where
  split : r.packets ++ r.deliveries.flatten = packets
  nonempty : ∀ d ∈ r.deliveries, d ≠ []
  packets_eq : r.packets = before ++ p :: after
  packet_eq : r.packet = before.length
  offset_lt : r.offset < p.payload.length
  start_eq : start = (payloadBytes before).length + r.offset

section Reads

variable {packets : List Packet} {r : ConnectionReader} {start : ℕ}

lemma recv_cases (hne : ∀ d ∈ r.deliveries, d ≠ []) :
    (r.deliveries = [] ∧ r.recv = none) ∨ ∃ p ps deliveries, r.deliveries = (p :: ps) :: deliveries ∧
      r.recv = some { r with packets := r.packets ++ p :: ps, deliveries := deliveries } := by
  rw [recv]
  cases hd : r.deliveries with
  | nil => exact Or.inl ⟨rfl, rfl⟩
  | cons d deliveries =>
    obtain ⟨p, ps, rfl⟩ := List.exists_cons_of_ne_nil (hne d (hd ▸ List.mem_cons_self))
    exact Or.inr ⟨p, ps, deliveries, rfl, rfl⟩

lemma getNextPacket_spec (hf : Follows packets r start) {before : List Packet} {p : Packet} {after : List Packet}
    (he : r.packets = before ++ p :: after) (hp : r.packet = before.length)
    (hs : start = (payloadBytes before).length + p.payload.length) :
    (start = (payloadBytes packets).length ∧ r.getNextPacket = none) ∨
      ∃ r' before' q after', r.getNextPacket = some r' ∧ Ready packets r' start before' q after' := by
  have hsplit := hf.split
  rw [getNextPacket]
  cases after with
  | cons q after =>
    rw [if_pos (by rw [hp, he]; simp)]
    have hq : q ∈ packets := by
      rw [← hsplit, he]
      simp
    refine Or.inr ⟨_, before ++ [p], q, after, rfl, hsplit, hf.nonempty, ?_, ?_, ?_, ?_⟩
    · simp [he]
    · simp [hp]
    · exact List.length_pos_of_ne_nil (hf.payload_ne q hq)
    · simp [hs]
  | nil =>
    rw [if_neg (by rw [hp, he]; simp)]
    rcases recv_cases hf.nonempty with ⟨hd, hr⟩ | ⟨q, qs, deliveries, hd, hr⟩
    · refine Or.inl ⟨?_, by rw [hr, Option.map_none]⟩
      rw [← hsplit, he, hd, hs]
      simp
    · have hq : q ∈ packets := by
        rw [← hsplit, hd]
        simp
      rw [hr, Option.map_some]
      refine Or.inr ⟨_, before ++ [p], q, qs, rfl, ?_, ?_, ?_, ?_, ?_, ?_⟩
      · rw [← hsplit, hd]
        simp
      · exact fun d hmem => hf.nonempty d (hd ▸ List.mem_cons_of_mem _ hmem)
      · simp [he]
      · simp [hp]
      · exact List.length_pos_of_ne_nil (hf.payload_ne q hq)
      · simp [hs]

lemma prepare_spec (hf : Follows packets r start) :
    (start = (payloadBytes packets).length ∧ r.prepare = none) ∨
      ∃ r' before p after, r.prepare = some r' ∧ Ready packets r' start before p after := by
  have hsplit := hf.split
  rw [prepare]
  rcases hf.standing with ⟨hps, hp, ho, hs⟩ | ⟨he, hp, ho, hs⟩
  · rw [if_pos (by rw [hp, hps]; rfl)]
    rcases recv_cases hf.nonempty with ⟨hd, hr⟩ | ⟨q, qs, deliveries, hd, hr⟩
    · refine Or.inl ⟨?_, by rw [hr]; rfl⟩
      rw [← hsplit, hps, hd, hs]
      rfl
    · have hq : q ∈ packets := by
        rw [← hsplit, hd]
        simp
      have hpos := List.length_pos_of_ne_nil (hf.payload_ne q hq)
      refine Or.inr ⟨{ r with packets := q :: qs, packet := 0, deliveries := deliveries }, [], q, qs, ?_, ?_⟩
      · rw [hr, Option.map_some, Option.bind_some, hps]
        simp only [List.nil_append, List.getElem?_cons_zero, Option.bind_some]
        rw [if_neg (by omega)]
      · refine ⟨?_, fun d hmem => hf.nonempty d (hd ▸ List.mem_cons_of_mem _ hmem), rfl, rfl, ?_, ?_⟩
        · rw [← hsplit, hps, hd]
          simp
        · exact ho ▸ hpos
        · rw [hs, ho]
          rfl
  · rename_i before p after
    rw [if_neg (by rw [hp, he]; simp), Option.bind_some, hp, he]
    simp only [List.getElem?_append_right le_rfl, Nat.sub_self, List.getElem?_cons_zero,
      Option.bind_some]
    split_ifs with hfull
    · exact getNextPacket_spec hf he hp (by rw [hs, hfull])
    · exact Or.inr ⟨r, before, p, after, rfl, hsplit, hf.nonempty, he, hp, lt_of_le_of_ne ho hfull, hs⟩

lemma within_iff {before : List Packet} {p : Packet} {after : List Packet} (he : packets = before ++ p :: after)
    (hle : (payloadBytes before).length ≤ start) (hlt : start < (payloadBytes before).length + p.payload.length)
    (size : ℕ) : Within packets start size ↔ start + size ≤ (payloadBytes before).length + p.payload.length := by
  refine ⟨?_, fun h => ⟨before, p, after, he, hle, hlt, h⟩⟩
  rintro ⟨before', p', after', he', hle', hlt', h⟩
  rcases prefix_or_eq_or_prefix he he' with ⟨zs, rfl⟩ | ⟨rfl, rfl, -⟩ | ⟨zs, rfl⟩
  · simp only [payloadBytes_append, payloadBytes_cons, List.length_append] at hle'
    omega
  · exact h
  · simp only [payloadBytes_append, payloadBytes_cons, List.length_append] at hle
    omega

lemma within_end (size : ℕ) : ¬ Within packets (payloadBytes packets).length size := by
  rintro ⟨before, p, after, he, _, hlt, _⟩
  rw [he] at hlt
  simp only [payloadBytes_append, payloadBytes_cons, List.length_append] at hlt
  omega

lemma slice_packet {before : List Packet} {p : Packet} {after : List Packet} {offset size : ℕ}
    (h : offset + size ≤ p.payload.length) :
    slice (payloadBytes (before ++ p :: after)) ((payloadBytes before).length + offset) size =
      slice p.payload offset size := by
  rw [payloadBytes_append, payloadBytes_cons, slice, drop_length_add_append, List.drop_append_of_le_length (by omega),
    List.take_append_of_le_length (by rw [List.length_drop]; omega), slice]

lemma Ready.packets_split {before : List Packet} {p : Packet} {after : List Packet}
    (h : Ready packets r start before p after) : packets = before ++ p :: (after ++ r.deliveries.flatten) := by
  rw [← h.split, h.packets_eq, List.append_assoc, List.cons_append]

lemma Ready.current {before : List Packet} {p : Packet} {after : List Packet}
    (h : Ready packets r start before p after) : r.packets[r.packet]? = some p := by
  rw [h.packet_eq, h.packets_eq, List.getElem?_append_right le_rfl, Nat.sub_self, List.getElem?_cons_zero]

lemma readLoop_returns {payload : List UInt8} {fuel offset size : ℕ} {x : List UInt8 × ℕ}
    (h : offset + size ≤ payload.length) (hx : readLoop payload fuel offset size = some x) :
    x = (slice payload offset size, offset + size) := by
  cases fuel with
  | succ fuel =>
    rw [readLoop_done fuel h] at hx
    exact (Option.some.inj hx).symm
  | zero =>
    cases size with
    | zero =>
      cases hx
      rw [slice, List.take_zero, Nat.add_zero]
    | succ size => cases hx

lemma read_spec (hf : Follows packets r start) (size : ℕ) :
    (Within packets start size ∧ ∃ r', Follows packets r' (start + size) ∧
      (∀ fuel, r.read (fuel + 1) size = some (slice (payloadBytes packets) start size, r')) ∧
      ∀ fuel x, r.read fuel size = some x → x = (slice (payloadBytes packets) start size, r')) ∨
    (¬ Within packets start size ∧ ∀ fuel, r.read fuel size = none) := by
  rcases prepare_spec hf with ⟨hend, hnone⟩ | ⟨r', before, p, after, hr', hready⟩
  · refine Or.inr ⟨hend ▸ within_end size, fun fuel => ?_⟩
    rw [read, hnone]
    rfl
  · have hs := hready.start_eq
    have hlt := hready.offset_lt
    have hiff : Within packets start size ↔ _ := within_iff hready.packets_split (by omega) (by omega) size
    have hread : ∀ fuel, r.read fuel size = (readLoop p.payload fuel r'.offset size).map fun x =>
        (x.1, { r' with offset := x.2 }) := fun fuel => by
      rw [read, hr', Option.bind_some, hready.current, Option.bind_some]
    by_cases hle : r'.offset + size ≤ p.payload.length
    · have hslice : slice (payloadBytes packets) start size = slice p.payload r'.offset size := by
        rw [hready.packets_split, hs, slice_packet hle]
      refine Or.inl ⟨hiff.mpr (by omega), { r' with offset := r'.offset + size }, ?_, fun fuel => ?_, fun fuel x hx => ?_⟩
      · exact ⟨hready.split, hready.nonempty, hf.payload_ne,
          .inside hready.packets_eq hready.packet_eq hle (by rw [hs, Nat.add_assoc])⟩
      · rw [hread, readLoop_done fuel hle, Option.map_some, hslice]
      · rw [hread] at hx
        obtain ⟨y, hy, rfl⟩ := Option.map_eq_some_iff.mp hx
        rw [readLoop_returns hle hy, hslice]
    · refine Or.inr ⟨fun hw => hle (by have := hiff.mp hw; omega), fun fuel => ?_⟩
      rw [hread, readLoop_stuck fuel hlt.le (by omega), Option.map_none]

lemma readAll_of_within (hf : Follows packets r start) {sizes : List ℕ} (h : EachWithin packets start sizes) :
    ∃ r', readAll 1 r sizes = some (cut (payloadBytes packets) start sizes, r') := by
  induction sizes generalizing r start with
  | nil => exact ⟨r, rfl⟩
  | cons size sizes ih =>
    rcases read_spec hf size with ⟨_, r', hf', hread, _⟩ | ⟨hw, _⟩
    · obtain ⟨r'', hr''⟩ := ih hf' h.2
      exact ⟨r'', by rw [readAll, hread 0, Option.bind_some, hr'']; rfl⟩
    · exact absurd h.1 hw

lemma within_of_readAll (hf : Follows packets r start) {sizes : List ℕ} {fuel : ℕ}
    {y : List (List UInt8) × ConnectionReader} (h : readAll fuel r sizes = some y) :
    EachWithin packets start sizes := by
  induction sizes generalizing r start y with
  | nil => trivial
  | cons size sizes ih =>
    rw [readAll, Option.bind_eq_some_iff] at h
    obtain ⟨x, hx, h⟩ := h
    obtain ⟨z, hz, _⟩ := Option.map_eq_some_iff.mp h
    rcases read_spec hf size with ⟨hw, r', hf', _, hback⟩ | ⟨_, hnone⟩
    · rw [hback fuel x hx] at hz
      exact ⟨hw, ih hf' hz⟩
    · rw [hnone fuel] at hx
      cases hx

lemma follows_opened {deliveries : List (List Packet)} (hd : ∀ d ∈ deliveries, d ≠ [])
    (hp : ∀ p ∈ deliveries.flatten, p.payload ≠ []) : Follows deliveries.flatten (opened deliveries) 0 :=
  ⟨rfl, hd, hp, .fresh rfl rfl rfl rfl⟩

/-- `Recv` hands over the packets in any groups; the reads return, with the bytes of the stream, exactly
while each stays within one packet. -/
theorem reads_iff {deliveries : List (List Packet)} (hd : ∀ d ∈ deliveries, d ≠ [])
    (hp : ∀ p ∈ deliveries.flatten, p.payload ≠ []) (sizes : List ℕ) :
    (∃ fuel r', readAll fuel (opened deliveries) sizes =
        some (cut (payloadBytes deliveries.flatten) 0 sizes, r')) ↔
      EachWithin deliveries.flatten 0 sizes := by
  constructor
  · rintro ⟨fuel, r', h⟩
    exact within_of_readAll (follows_opened hd hp) h
  · intro h
    exact ⟨1, readAll_of_within (follows_opened hd hp) h⟩

end Reads

theorem reads_iff_two : ∃ fuel r', readAll fuel (opened [[.ofPayload [1, 2]], [.ofPayload [3]]]) [1, 1, 1] =
    some ([[1], [2], [3]], r') :=
  (reads_iff (by decide) (by decide) [1, 1, 1]).mpr
    ⟨⟨[], _, _, rfl, by decide, by decide, by decide⟩, ⟨[], _, _, rfl, by decide, by decide, by decide⟩,
      ⟨[_], _, [], rfl, by decide, by decide, by decide⟩, trivial⟩

theorem read_across_packets : ¬ ∀ (deliveries : List (List Packet)) (sizes : List ℕ), (∀ d ∈ deliveries, d ≠ []) →
    (∀ p ∈ deliveries.flatten, p.payload ≠ []) → sizes.sum ≤ (payloadBytes deliveries.flatten).length →
      ∃ fuel r', readAll fuel (opened deliveries) sizes =
        some (cut (payloadBytes deliveries.flatten) 0 sizes, r') := by
  intro h
  obtain ⟨fuel, r', hr⟩ := h [[.ofPayload [1], .ofPayload [2]]] [2] (by decide) (by decide) (by decide)
  rw [readAll, Option.bind_eq_some_iff] at hr
  obtain ⟨x, hx, _⟩ := hr
  have hloop : readLoop [1] fuel 0 2 = none := readLoop_stuck fuel (by decide) (by decide)
  rw [read, show (opened [[.ofPayload [1], .ofPayload [2]]]).prepare =
    some ⟨[.ofPayload [1], .ofPayload [2]], 0, 0, []⟩ from rfl, Option.bind_some] at hx
  change (Option.map _ (readLoop [1] fuel 0 2)) = _ at hx
  rw [hloop] at hx
  cases hx

end ConnectionReader

end FastTransport.Protocol
