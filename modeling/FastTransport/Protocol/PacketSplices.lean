import FastTransport.Containers.MultiListRefinement
import FastTransport.Protocol.DirectoryEntryWriter
import FastTransport.Protocol.MessageFrame
import FastTransport.Protocol.MessageReader

/-! The range splices that the message writer, the message reader and the directory entry writer
make on their packet lists, and whether each starts at an element of the list. -/

namespace FastTransport.Protocol

open Containers Lib.Runs

/-- The positions of a splice's iterators in `that`; an iterator into another list has none. -/
structure RangeSplice where
  that : List Packet
  first : Option ℕ
  last : Option ℕ

def RangeSplice.StartsAtElement (x : RangeSplice) : Prop :=
  ∀ m : MultiList Packet, m.Inv → m.contents = x.that →
    ∃ i ∈ x.first, ∃ it p, m.iteratorAt i = some it ∧ m.deref it = some p

lemma startsAtElement_iff (x : RangeSplice) : x.StartsAtElement ↔ ∃ i ∈ x.first, i < x.that.length := by
  constructor
  · intro h
    obtain ⟨hm, hc⟩ := MultiList.pushBack_all MultiList.inv_empty x.that
    rw [MultiList.empty_related.2, List.nil_append] at hc
    obtain ⟨i, hi, it, p, hat, hderef⟩ := h _ hm hc
    refine ⟨i, hi, ?_⟩
    rcases MultiList.iteratorAt_spec hm i with ⟨_, it', hat', hv, hpos⟩ | ⟨_, hnone⟩
    · cases hat.symm.trans hat'
      rw [MultiList.deref_eq_getElem hv, hpos, hc] at hderef
      exact (List.getElem?_eq_some_iff.mp hderef).1
    · cases hat.symm.trans hnone
  · rintro ⟨i, hi, hlt⟩ m hm hc
    refine ⟨i, hi, ?_⟩
    rcases MultiList.iteratorAt_spec hm i with ⟨_, it, hat, hv, hpos⟩ | ⟨hgt, _⟩
    · refine ⟨it, x.that[i], hat, ?_⟩
      rw [MultiList.deref_eq_getElem hv, hpos, hc, List.getElem?_eq_getElem hlt]
    · rw [hc] at hgt
      omega

lemma startsAtElement_some (that : List Packet) (first : ℕ) (last : Option ℕ) :
    RangeSplice.StartsAtElement ⟨that, some first, last⟩ ↔ first < that.length := by
  rw [startsAtElement_iff]
  exact ⟨fun ⟨i, hi, hlt⟩ => Option.some.inj hi ▸ hlt, fun hlt => ⟨first, rfl, hlt⟩⟩

lemma not_startsAtElement_none (that : List Packet) (last : Option ℕ) : ¬ RangeSplice.StartsAtElement ⟨that, none, last⟩ := by
  rw [startsAtElement_iff]
  rintro ⟨i, hi, -⟩
  cases hi

/-- An object's members. Once `GetPackets` has handed out the list that `_packet` is in, `_packets` holds what has come
since. -/
structure Handled (M : Type*) where
  members : M
  since : Option (List Packet)

namespace MessageWriter

inductive Call
  | operation (op : Operation)
  | getWritedPackets

def call (w : MessageWriter) : Call → Option MessageWriter
  | .operation op => w.apply op
  | .getWritedPackets => w.getWritedPackets.map Prod.snd

/-- A splice behind a failed assertion is not made. -/
def splices (w : MessageWriter) : Call → List RangeSplice
  | .operation (.packets ps) =>
    match w.write (Lib.Bytes.toBytes sizeWidth ps.length) with
    | none => []
    | some w' =>
      if w'.packet < w'.packets.length then [⟨w'.packets, some (w'.packet + 1), some w'.packets.length⟩] else []
  | .operation (.getDataPackets _) =>
    if w.packet < w.packets.length then [⟨w.packets, some (w.packet + 1), some w.packets.length⟩] else []
  | .getWritedPackets =>
    if w.packet = 0 ∧ w.offset = frameCountSize then []
    else
      let packet := if w.offset = 0 ∧ w.packet ≠ 0 then w.packet - 1 else w.packet
      if packet < w.packets.length then [⟨w.packets, some 0, some (packet + 1)⟩] else []
  | _ => []

/-- No packet behind the current one, once a list's count is written or when data packets are asked for. -/
def Exhausted (w : MessageWriter) : Call → Prop
  | .operation (.packets ps) =>
    ∃ w', w.write (Lib.Bytes.toBytes sizeWidth ps.length) = some w' ∧ w'.packet + 1 = w'.packets.length
  | .operation (.getDataPackets _) => w.packet + 1 = w.packets.length
  | _ => False

lemma splices_getWritedPackets (w : MessageWriter) : ∀ x ∈ w.splices .getWritedPackets, x.StartsAtElement := by
  simp only [splices]
  generalize (if w.offset = 0 ∧ w.packet ≠ 0 then w.packet - 1 else w.packet) = packet
  split_ifs with hnone hlt
  · exact nofun
  · exact List.forall_mem_singleton.mpr ((startsAtElement_some _ _ _).mpr (Nat.zero_lt_of_lt hlt))
  · exact nofun

lemma splices_start_iff (w : MessageWriter) (c : Call) :
    (∀ x ∈ w.splices c, x.StartsAtElement) ↔ ¬ w.Exhausted c := by
  cases c with
  | getWritedPackets => exact iff_of_true w.splices_getWritedPackets id
  | operation op =>
    cases op with
    | write src => exact iff_of_true nofun id
    | addFreePackets ps => exact iff_of_true nofun id
    | getDataPackets size =>
      simp only [splices, Exhausted]
      split_ifs with hlt
      · rw [List.forall_mem_singleton, startsAtElement_some]
        omega
      · exact iff_of_true nofun (by omega)
    | packets ps =>
      simp only [splices, Exhausted]
      cases hw : w.write (Lib.Bytes.toBytes sizeWidth ps.length) with
      | none => exact iff_of_true nofun (by rintro ⟨w', h, _⟩; cases h)
      | some w' =>
        simp only [Option.some.injEq, exists_eq_left']
        split_ifs with hlt
        · rw [List.forall_mem_singleton, startsAtElement_some]
          omega
        · exact iff_of_true nofun (by omega)

/-- The same with `_packet` in a list that the caller has, whose last packet it cannot leave. -/
def splicesSince (w : MessageWriter) (since : List Packet) : Call → List RangeSplice
  | .operation (.packets ps) =>
    match w.write (Lib.Bytes.toBytes sizeWidth ps.length) with
    | none => []
    | some w' => if w'.packet + 1 < w'.packets.length then [⟨since, none, some since.length⟩] else []
  | .operation (.getDataPackets _) =>
    if w.packet + 1 < w.packets.length then [⟨since, none, some since.length⟩] else []
  | .getWritedPackets =>
    -- the front packet takes the frame count, and `_packet` may step back, before the splice is made
    if since ≠ [] ∧ (w.offset = 0 → w.packet ≠ 0) ∧
        (if w.offset = 0 then w.packet - 1 else w.packet) + 1 < w.packets.length then [⟨since, some 0, none⟩]
    else []
  | _ => []

def Apart (w : MessageWriter) : Call → Prop
  | .operation (.packets ps) =>
    ∃ w', w.write (Lib.Bytes.toBytes sizeWidth ps.length) = some w' ∧ w'.packet + 1 < w'.packets.length
  | .operation (.getDataPackets _) => w.packet + 1 < w.packets.length
  | _ => False

lemma splicesSince_start_iff (w : MessageWriter) (since : List Packet) (c : Call) :
    (∀ x ∈ w.splicesSince since c, x.StartsAtElement) ↔ ¬ w.Apart c := by
  have hforeign (condition : Prop) [Decidable condition] :
      (∀ x ∈ if condition then [(⟨since, none, some since.length⟩ : RangeSplice)] else [], x.StartsAtElement) ↔
        ¬ condition := by
    split_ifs with h
    · rw [List.forall_mem_singleton]
      exact iff_of_false (not_startsAtElement_none _ _) (not_not.mpr h)
    · exact iff_of_true nofun h
  cases c with
  | getWritedPackets =>
    refine iff_of_true ?_ id
    rw [splicesSince]
    generalize (if w.offset = 0 then w.packet - 1 else w.packet) = packet
    split_ifs with h
    · exact List.forall_mem_singleton.mpr ((startsAtElement_some _ _ _).mpr (List.length_pos_of_ne_nil h.1))
    · exact nofun
  | operation op =>
    cases op with
    | write src => exact iff_of_true nofun id
    | addFreePackets ps => exact iff_of_true nofun id
    | getDataPackets size => exact hforeign _
    | packets ps =>
      simp only [splicesSince, Apart]
      cases hw : w.write (Lib.Bytes.toBytes sizeWidth ps.length) with
      | none => exact iff_of_true nofun (by rintro ⟨w', h, _⟩; cases h)
      | some w' =>
        simp only [Option.some.injEq, exists_eq_left']
        exact hforeign _

inductive AnyCall
  | call (c : Call)
  | flush
  | getPackets

namespace Handled

def splices (l : Handled MessageWriter) : AnyCall → List RangeSplice
  | .call c => match l.since with
    | none => l.members.splices c
    | some since => l.members.splicesSince since c
  | _ => []

def Misses (l : Handled MessageWriter) : AnyCall → Prop
  | .call c => match l.since with
    | none => l.members.Exhausted c
    | some _ => l.members.Apart c
  | _ => False

lemma splices_start_iff (l : Handled MessageWriter) (c : AnyCall) :
    (∀ x ∈ splices l c, x.StartsAtElement) ↔ ¬ Misses l c := by
  cases c with
  | flush | getPackets => exact iff_of_true nofun id
  | call c =>
    obtain ⟨w, since⟩ := l
    cases since with
    | none => exact w.splices_start_iff c
    | some since => exact w.splicesSince_start_iff since c

end Handled

end MessageWriter

namespace MessageReader

inductive Call
  | read (size : ℕ)
  | readPackets
  | getFreePackets

def call (r : MessageReader) : Call → Option MessageReader
  | .read size => (r.read size).map Prod.snd
  | .readPackets => r.readPackets.map Prod.snd
  | .getFreePackets => some r.getFreePackets.2

def splices (r : MessageReader) : Call → List RangeSplice
  | .readPackets =>
    match r.read sizeWidth with
    | none => []
    | some size =>
      [⟨size.2.packets, some (size.2.packet + 1),
        some (min (size.2.packet + 1 + Lib.Bytes.ofBytes size.1) size.2.packets.length)⟩]
  | .getFreePackets => [⟨r.packets, some 0, some r.packet⟩]
  | .read _ => []

/-- The packet in which a list's count ends is the message's last, or the reader has no packets at all. -/
def Exhausted (r : MessageReader) : Call → Prop
  | .readPackets => ∃ size, r.read sizeWidth = some size ∧ size.2.packet + 1 = size.2.packets.length
  | .getFreePackets => r.packets = []
  | .read _ => False

def OnPacket (r : MessageReader) : Prop := r.packet < r.packets.length

lemma readLoop_onPacket {fuel size : ℕ} {r : MessageReader} {x : List UInt8 × MessageReader} (hr : r.OnPacket)
    (h : r.readLoop fuel size = some x) : x.2.OnPacket := by
  induction fuel generalizing r size x with
  | zero =>
    cases size with
    | zero =>
      cases h
      exact hr
    | succ size => simp [readLoop] at h
  | succ fuel ih =>
    cases size with
    | zero =>
      cases h
      exact hr
    | succ size =>
      simp only [readLoop, Option.bind_eq_some_iff] at h
      obtain ⟨packet, _, r', hr', h⟩ := h
      have hnext : r'.OnPacket := by
        split_ifs at hr' with hfull
        · obtain ⟨hlt, he⟩ := Option.ite_none_right_eq_some.mp hr'
          cases he
          exact hlt
        · cases hr'
          exact hr
      split_ifs at h
      obtain ⟨rest, hrest, rfl⟩ := Option.map_eq_some_iff.mp h
      have hend : rest.2.OnPacket := ih (by exact hnext) hrest
      exact hend

lemma call_onPacket (r : MessageReader) (c : Call) (t : MessageReader) (hr : r.OnPacket) (h : r.call c = some t) :
    t.OnPacket := by
  cases c with
  | read size =>
    obtain ⟨x, hx, rfl⟩ := Option.map_eq_some_iff.mp h
    exact readLoop_onPacket hr hx
  | readPackets =>
    obtain ⟨x, hx, rfl⟩ := Option.map_eq_some_iff.mp h
    rw [readPackets, Option.bind_eq_some_iff] at hx
    obtain ⟨size, _, hx⟩ := hx
    dsimp only at hx
    split_ifs at hx
    obtain ⟨packet, hpacket, rfl⟩ := Option.map_eq_some_iff.mp hx
    exact (List.getElem?_eq_some_iff.mp hpacket).1
  | getFreePackets =>
    cases h
    simp only [OnPacket, getFreePackets, List.length_drop] at hr ⊢
    omega

lemma create_onPacket {packets : List Packet} {r : MessageReader} (h : create packets = some r) : r.OnPacket := by
  rw [create] at h
  split_ifs at h with hempty
  cases h
  exact List.length_pos_of_ne_nil (by simpa using hempty)

/-- The current packet is one of the reader's, unless it was constructed without any. -/
def Placed (r : MessageReader) : Prop := r.OnPacket ∨ r.packets = []

lemma read_packets_nil {r : MessageReader} (h : r.packets = []) {size : ℕ} {x : List UInt8 × MessageReader}
    (hx : r.read size = some x) : size = 0 ∧ x.2 = r := by
  rw [read] at hx
  cases size with
  | zero =>
    rw [readLoop] at hx
    cases hx
    exact ⟨rfl, rfl⟩
  | succ size =>
    rw [Nat.add_right_comm, readLoop, h, List.getElem?_nil, Option.bind_none] at hx
    cases hx

lemma splices_start_iff {r : MessageReader} (hr : r.Placed) (c : Call) :
    (∀ x ∈ r.splices c, x.StartsAtElement) ↔ ¬ r.Exhausted c := by
  cases c with
  | read size => exact iff_of_true nofun id
  | getFreePackets =>
    rw [splices, List.forall_mem_singleton, startsAtElement_some, List.length_pos_iff]
    exact Iff.rfl
  | readPackets =>
    simp only [splices, Exhausted]
    cases hsize : r.read sizeWidth with
    | none => exact iff_of_true nofun (by rintro ⟨size, h, _⟩; cases h)
    | some size =>
      have hlt : size.2.packet < size.2.packets.length := by
        rcases hr with hr | hnil
        · exact readLoop_onPacket hr hsize
        · exact absurd (read_packets_nil hnil hsize).1 (by decide)
      simp only [Option.some.injEq, exists_eq_left']
      rw [List.forall_mem_singleton, startsAtElement_some]
      omega

/-- The same with `_packet` in a list that the caller has: the end of that list is not noticed. -/
def splicesSince (r : MessageReader) (since : List Packet) : Call → List RangeSplice
  | .readPackets =>
    match r.read sizeWidth with
    | none => []
    | some size =>
      if size.2.packet + 1 + Lib.Bytes.ofBytes size.1 < size.2.packets.length then [⟨since, none, none⟩] else []
  | .getFreePackets => [⟨since, some 0, none⟩]
  | .read _ => []

def Apart (r : MessageReader) (since : List Packet) : Call → Prop
  | .readPackets => ∃ size, r.read sizeWidth = some size ∧
      size.2.packet + 1 + Lib.Bytes.ofBytes size.1 < size.2.packets.length
  | .getFreePackets => since = []
  | .read _ => False

lemma splicesSince_start_iff (r : MessageReader) (since : List Packet) (c : Call) :
    (∀ x ∈ r.splicesSince since c, x.StartsAtElement) ↔ ¬ r.Apart since c := by
  cases c with
  | read size => exact iff_of_true nofun id
  | getFreePackets =>
    rw [splicesSince, List.forall_mem_singleton, startsAtElement_some, List.length_pos_iff]
    exact Iff.rfl
  | readPackets =>
    simp only [splicesSince, Apart]
    cases hsize : r.read sizeWidth with
    | none => exact iff_of_true nofun (by rintro ⟨size, h, _⟩; cases h)
    | some size =>
      simp only [Option.some.injEq, exists_eq_left']
      split_ifs with hlt
      · rw [List.forall_mem_singleton]
        exact iff_of_false (not_startsAtElement_none _ _) (not_not.mpr hlt)
      · exact iff_of_true nofun hlt

inductive AnyCall
  | call (c : Call)
  | getPackets

namespace Handled

def call (l : Handled MessageReader) : AnyCall → Option (Handled MessageReader)
  | .call (.read size) => (l.members.read size).map fun x => { l with members := x.2 }
  | .call .readPackets =>
    if l.since = none then l.members.readPackets.map fun x => { l with members := x.2 } else none
  | .call .getFreePackets =>
    if l.since = none ∧ l.members.packets ≠ [] then some { l with members := l.members.getFreePackets.2 } else none
  | .getPackets => some (if l.members.packets = [] then l else { l with since := some [] })

def splices (l : Handled MessageReader) : AnyCall → List RangeSplice
  | .call c => match l.since with
    | none => l.members.splices c
    | some since => l.members.splicesSince since c
  | .getPackets => []

def Misses (l : Handled MessageReader) : AnyCall → Prop
  | .call c => match l.since with
    | none => l.members.Exhausted c
    | some since => l.members.Apart since c
  | .getPackets => False

inductive Constructed : Handled MessageReader → Prop
  | create {packets : List Packet} {r : MessageReader} : MessageReader.create packets = some r → Constructed ⟨r, none⟩
  | default : Constructed ⟨⟨[], 0, frameCountSize⟩, none⟩

lemma Constructed.placed {l : Handled MessageReader} (h : Constructed l) : l.members.Placed := by
  cases h with
  | create h => exact Or.inl (create_onPacket h)
  | default => exact Or.inr rfl

lemma call_placed (l : Handled MessageReader) (c : AnyCall) (t : Handled MessageReader) (hl : l.members.Placed)
    (h : call l c = some t) : t.members.Placed := by
  rcases hl with hl | hnil
  · cases c with
    | getPackets =>
      cases h
      split_ifs
      · exact Or.inl hl
      · exact Or.inl hl
    | call c =>
      have hcall : l.members.call c = some t.members := by
        cases c with
        | read size =>
          obtain ⟨x, hx, rfl⟩ := Option.map_eq_some_iff.mp h
          exact Option.map_eq_some_iff.mpr ⟨x, hx, rfl⟩
        | readPackets =>
          obtain ⟨x, hx, rfl⟩ := Option.map_eq_some_iff.mp (Option.ite_none_right_eq_some.mp h).2
          exact Option.map_eq_some_iff.mpr ⟨x, hx, rfl⟩
        | getFreePackets =>
          obtain ⟨-, ht⟩ := Option.ite_none_right_eq_some.mp h
          cases ht
          rfl
      exact Or.inl (call_onPacket _ c _ hl hcall)
  · right
    cases c with
    | getPackets =>
      cases h
      rw [if_pos hnil]
      exact hnil
    | call c =>
      cases c with
      | read size =>
        obtain ⟨x, hx, rfl⟩ := Option.map_eq_some_iff.mp h
        dsimp only
        rwa [(read_packets_nil hnil hx).2]
      | readPackets =>
        obtain ⟨x, hx, -⟩ := Option.map_eq_some_iff.mp (Option.ite_none_right_eq_some.mp h).2
        rw [readPackets, Option.bind_eq_some_iff] at hx
        obtain ⟨size, hsize, -⟩ := hx
        exact absurd (read_packets_nil hnil hsize).1 (by decide)
      | getFreePackets => exact absurd hnil (Option.ite_none_right_eq_some.mp h).1.2

lemma splices_start_iff {l : Handled MessageReader} (hl : l.members.Placed) (c : AnyCall) :
    (∀ x ∈ splices l c, x.StartsAtElement) ↔ ¬ Misses l c := by
  cases c with
  | getPackets => exact iff_of_true nofun id
  | call c =>
    obtain ⟨r, since⟩ := l
    cases since with
    | none => exact MessageReader.splices_start_iff hl c
    | some since => exact r.splicesSince_start_iff since c

end Handled

end MessageReader

namespace DirectoryEntryWriter

inductive Call
  | addDirectoryEntry (name : List UInt8) (inode : UInt64) (mode : UInt32) (off : UInt64)
  | addDirectoryEntryPlus (name : List UInt8) (s : FileStat) (off : UInt64)
  | getWritedPackets
  | getPackets

namespace Handled

def splices (l : Handled DirectoryEntryWriter) : Call → List RangeSplice
  | .getWritedPackets =>
    match l.members.getNextPacket, l.since with
    | none, _ => []
    | some w, none => [⟨w.packets, some 0, some w.packet⟩]
    | some _, some since => [⟨since, some 0, none⟩]
  | _ => []

/-- `GetWritedPackets` goes on to a packet after `GetPackets` has handed the packets out. -/
def Misses (l : Handled DirectoryEntryWriter) : Call → Prop
  | .getWritedPackets => l.since = some [] ∧ l.members.packet + 1 < l.members.packets.length
  | _ => False

lemma splices_start_iff (l : Handled DirectoryEntryWriter) (c : Call) :
    (∀ x ∈ splices l c, x.StartsAtElement) ↔ ¬ Misses l c := by
  cases c with
  | addDirectoryEntry | addDirectoryEntryPlus | getPackets =>
    exact iff_of_true (fun _ hx => absurd hx List.not_mem_nil) id
  | getWritedPackets =>
    obtain ⟨d, since⟩ := l
    simp only [splices, Misses]
    cases hd : d.getNextPacket with
    | none =>
      have hlast : ¬ d.packet + 1 < d.packets.length := fun hlt => by
        rw [getNextPacket, if_pos hlt] at hd
        cases hd
      exact iff_of_true (fun _ hx => absurd hx List.not_mem_nil) fun h => hlast h.2
    | some w =>
      obtain ⟨hlt, he⟩ := Option.ite_none_right_eq_some.mp hd
      cases he
      cases since with
      | none =>
        rw [List.forall_mem_singleton, startsAtElement_some]
        refine iff_of_true ?_ fun h => absurd h.1 (Option.some_ne_none _).symm
        change 0 < (d.packets.modify d.packet _).length
        rw [List.length_modify]
        omega
      | some since =>
        rw [List.forall_mem_singleton, startsAtElement_some, List.length_pos_iff, and_iff_left hlt, Option.some.injEq]

end Handled

end DirectoryEntryWriter

def wideSupply (n : ℕ) : List Packet := List.replicate n (Packet.ofPayload (List.replicate 16 0))

theorem range_splices_start_iff (w : Handled MessageWriter) (d : Handled DirectoryEntryWriter) {r r' : Handled MessageReader}
    {cs : List MessageReader.AnyCall} (hr : MessageReader.Handled.Constructed r)
    (hrun : run MessageReader.Handled.call r cs = some r') :
    (∀ c, (∀ x ∈ MessageWriter.Handled.splices w c, x.StartsAtElement) ↔ ¬ MessageWriter.Handled.Misses w c) ∧
      (∀ c, (∀ x ∈ MessageReader.Handled.splices r' c, x.StartsAtElement) ↔ ¬ MessageReader.Handled.Misses r' c) ∧
      ∀ c, (∀ x ∈ DirectoryEntryWriter.Handled.splices d c, x.StartsAtElement) ↔
        ¬ DirectoryEntryWriter.Handled.Misses d c := by
  have hplaced := run_invariant MessageReader.Handled.call_placed hr.placed hrun
  exact ⟨MessageWriter.Handled.splices_start_iff w, MessageReader.Handled.splices_start_iff hplaced,
    DirectoryEntryWriter.Handled.splices_start_iff d⟩

theorem range_splices_start_iff_read :
    ∃ r r' : Handled MessageReader,
      run MessageReader.Handled.call ⟨⟨wideSupply 2, 0, frameCountSize⟩, none⟩ [.call (.read 4)] = some r ∧
      (∀ x ∈ MessageReader.Handled.splices r (.call .readPackets), x.StartsAtElement) ∧
      run MessageReader.Handled.call ⟨⟨wideSupply 2, 0, frameCountSize⟩, none⟩ [.call (.read 4), .getPackets] = some r' ∧
      ¬ ∀ x ∈ MessageReader.Handled.splices r' (.call .getFreePackets), x.StartsAtElement := by
  have hcreate : MessageReader.Handled.Constructed ⟨⟨wideSupply 2, 0, frameCountSize⟩, none⟩ :=
    .create (show MessageReader.create (wideSupply 2) = _ from rfl)
  have hread : run MessageReader.Handled.call ⟨⟨wideSupply 2, 0, frameCountSize⟩, none⟩ [.call (.read 4)] =
      some ⟨⟨wideSupply 2, 0, 8⟩, none⟩ := rfl
  have hhanded : run MessageReader.Handled.call ⟨⟨wideSupply 2, 0, frameCountSize⟩, none⟩
      [.call (.read 4), .getPackets] = some ⟨⟨wideSupply 2, 0, 8⟩, some []⟩ := rfl
  let w : Handled MessageWriter := ⟨MessageWriter.create (wideSupply 1), none⟩
  let d : Handled DirectoryEntryWriter := ⟨DirectoryEntryWriter.create (wideSupply 1), none⟩
  refine ⟨_, _, hread, ((range_splices_start_iff w d hcreate hread).2.1 _).mpr ?_, hhanded,
    ((range_splices_start_iff w d hcreate hhanded).2.1 _).not.mpr (not_not.mpr rfl)⟩
  rintro ⟨size, hsize, hlast⟩
  cases hsize
  revert hlast
  decide

theorem range_splice_at_end : ¬ ∀ (supply : List Packet) (cs : List MessageWriter.Call) (w : MessageWriter),
    run MessageWriter.call (MessageWriter.create supply) cs = some w →
      ∀ c, ∀ x ∈ w.splices c, x.StartsAtElement := by
  intro h
  have hw := h (wideSupply 1) [] _ rfl (.operation (.packets []))
  rw [MessageWriter.splices_start_iff] at hw
  exact hw ⟨_, rfl, rfl⟩

end FastTransport.Protocol
