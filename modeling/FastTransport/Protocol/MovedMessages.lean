import FastTransport.Containers.MovedIterators
import FastTransport.Protocol.PacketSplices

/-! `MessageReader` and `MessageWriter` whose `_packet` was made from the packet list of this
object (`own`) or from the one of an object that was moved into it. -/

namespace FastTransport.Protocol

open Containers Containers.MultiList Lib.Bytes Lib.Lists Lib.Transparent

inductive CallResult
  | done
  | bytes (bs : List UInt8)
  | packets (ps : List Packet)
  deriving DecidableEq, Repr

/-- An object's members, the object they are in, and the object whose list `_packet` was made from. -/
structure Located (M : Type*) where
  object : ℕ
  container : ℕ
  members : M

namespace Located

variable {M : Type*}

def constructed (members : M) : Located M := ⟨0, 0, members⟩

def own (l : Located M) : Bool := l.container == l.object

def move (object : ℕ) (l : Located M) : Located M := { l with object := object }

def Tracks (wellFormed : M → Prop) (l : Located M) (members : M) : Prop := l.members = members ∧ wellFormed members

lemma Tracks.move {wellFormed : M → Prop} (object : ℕ) (l : Located M) (members : M) (h : Tracks wellFormed l members) :
    Tracks wellFormed (l.move object) members := h

lemma tracks_constructed {wellFormed : M → Prop} {members : M} (h : wellFormed members) :
    Tracks wellFormed (constructed members) members := ⟨rfl, h⟩

end Located

def payloadLengths (packets : List Packet) (packet : ℕ) : List ℕ := (packets.map fun p => p.payload.length).drop packet

/-- Whether bytes that are copied from an offset of the first of these payloads on need a packet behind the
last. The round that goes on to the next packet copies as many bytes as the packet before it holds. -/
def runsOut : List ℕ → ℕ → ℕ → Bool
  | [], _, _ => false
  | length :: rest, offset, size =>
    if offset + size ≤ length ∨ length < offset then false
    else
      let left := size - (length - offset)
      rest.isEmpty || decide (length < left) && runsOut rest length (left - length)

lemma payloadLengths_eq_cons {packets : List Packet} {i : ℕ} {packet : Packet} (h : packets[i]? = some packet) :
    payloadLengths packets i = packet.payload.length :: payloadLengths packets (i + 1) := by
  obtain ⟨hi, rfl⟩ := List.getElem?_eq_some_iff.mp h
  rw [payloadLengths, payloadLengths, List.drop_eq_getElem_cons (by simpa using hi), List.getElem_map]

lemma payloadLengths_eq_nil {packets : List Packet} {i : ℕ} (h : packets.length ≤ i) : payloadLengths packets i = [] :=
  List.drop_eq_nil_of_le (by simpa using h)

lemma runsOut_zero (lengths : List ℕ) (offset : ℕ) : runsOut lengths offset 0 = false := by
  cases lengths with
  | nil => rfl
  | cons length rest => rw [runsOut, Nat.add_zero, if_pos (le_or_gt offset length)]

lemma runsOut_inside {length offset : ℕ} (h : offset ≤ length) (rest : List ℕ) (size : ℕ) :
    runsOut (length :: rest) (offset + min size (length - offset)) (size - min size (length - offset)) =
      runsOut (length :: rest) offset size := by
  rcases le_total size (length - offset) with hle | hle
  · rw [Nat.min_eq_left hle, Nat.sub_self, runsOut_zero, runsOut, if_pos (Or.inl (by omega))]
  · rw [Nat.min_eq_right hle, Nat.add_sub_cancel' h]
    by_cases hend : size = length - offset
    · rw [hend, Nat.sub_self, runsOut_zero, runsOut, if_pos (Or.inl (by omega))]
    · rw [runsOut, runsOut, if_neg (by omega), if_neg (by omega), Nat.sub_self, Nat.sub_zero]

lemma runsOut_next (length : ℕ) (rest : List ℕ) {size : ℕ} (h : 0 < size) :
    runsOut (length :: rest) length size =
      (rest.isEmpty || runsOut rest (min size length) (size - min size length)) := by
  rw [runsOut, if_neg (by omega), Nat.sub_self, Nat.sub_zero]
  dsimp only
  rcases le_or_gt size length with hle | hgt
  · rw [Nat.min_eq_left hle, Nat.sub_self, runsOut_zero, decide_eq_false (not_lt.mpr hle), Bool.false_and]
  · rw [Nat.min_eq_right hgt.le, decide_eq_true hgt, Bool.true_and]

namespace MessageReader.Moved

def getNextPacket (own : Bool) (r : MessageReader) : Outcome MessageReader :=
  (Place.next own r.packets.length r.packet).bind fun packet =>
    if Place.isEnd own r.packets.length packet then .failed
    else .returns { r with packet := packet, offset := 0 }

def readLoop (own : Bool) : ℕ → MessageReader → ℕ → Outcome (List UInt8 × MessageReader)
  | _, r, 0 => .returns ([], r)
  | 0, _, _ + 1 => .undefined
  | fuel + 1, r, size@(_ + 1) =>
    match r.packets[r.packet]? with
    | none => .undefined
    | some packet =>
      (if r.offset = packet.payload.length then getNextPacket own r else .returns r).bind fun r' =>
        if packet.payload.length < r'.offset then .undefined
        else
          let readSize := min size (packet.payload.length - r'.offset)
          (readLoop own fuel { r' with offset := r'.offset + readSize } (size - readSize)).map fun rest =>
            (slice packet.payload r'.offset readSize ++ rest.1, rest.2)

def read (own : Bool) (r : MessageReader) (size : ℕ) : Outcome (List UInt8 × MessageReader) :=
  readLoop own (size + r.packets.length) r size

def advance (own : Bool) (length : ℕ) : ℕ → ℕ → Outcome ℕ
  | 0, last => .returns last
  | size + 1, last =>
    if Place.isEnd own length last then .returns last
    else (Place.next own length last).bind (advance own length size)

def readPackets (own : Bool) (r : MessageReader) : Outcome (List Packet × MessageReader) :=
  (read own r sizeWidth).bind fun size =>
    let length := size.2.packets.length
    (Place.next own length size.2.packet).bind fun start =>
      (advance own length (ofBytes size.1) start).bind fun last =>
        if start < length then
          let packets := size.2.packets.take start ++ size.2.packets.drop last
          match packets[size.2.packet]? with
          | none => .undefined
          | some packet =>
            .returns ((size.2.packets.take last).drop start, ⟨packets, size.2.packet, packet.payload.length⟩)
        else .undefined

inductive Call
  | call (c : MessageReader.Call)
  | getPackets

def perform (own : Bool) (r : MessageReader) : Call → Outcome (CallResult × Option MessageReader)
  | .call (.read size) => (read own r size).map fun x => (.bytes x.1, some x.2)
  | .call .readPackets => (readPackets own r).map fun x => (.packets x.1, some x.2)
  | .call .getFreePackets =>
    if r.packet < r.packets.length then .returns (.packets r.getFreePackets.1, some r.getFreePackets.2)
    else .undefined
  | .getPackets => .returns (.packets r.packets, none)

def TouchesEnd (r : MessageReader) : Call → Prop
  | .call (.read size) => runsOut (payloadLengths r.packets r.packet) r.offset size = true
  | .call .readPackets => runsOut (payloadLengths r.packets r.packet) r.offset sizeWidth = true ∨
      ∃ size, read true r sizeWidth = .returns size ∧ size.2.packet + 1 < size.2.packets.length ∧
        size.2.packets.length ≤ size.2.packet + 1 + ofBytes size.1
  | _ => False

section Reader

variable {own : Bool} {r : MessageReader}

lemma getNextPacket_inside {r : MessageReader} (h : r.packet + 1 < r.packets.length) (own : Bool) :
    getNextPacket own r = .returns { r with packet := r.packet + 1, offset := 0 } := by
  rw [getNextPacket, Place.next_inside h, Outcome.bind_returns, Place.isEnd_of_lt h]
  rfl

lemma getNextPacket_last {r : MessageReader} (h : r.packet + 1 = r.packets.length) : getNextPacket true r = .failed := by
  rw [getNextPacket, (Place.next_last h).1, Outcome.bind_returns, if_pos (by simp [Place.isEnd, h])]

lemma getNextPacket_moved (r : MessageReader) : getNextPacket false r = (getNextPacket true r).unasserted := by
  rcases lt_trichotomy (r.packet + 1) r.packets.length with hlt | hlast | hgt
  · rw [getNextPacket_inside hlt, getNextPacket_inside hlt]
    rfl
  · rw [getNextPacket_last hlast, getNextPacket, (Place.next_last hlast).2]
    rfl
  · have hnone : ∀ own, Place.next own r.packets.length r.packet = .undefined := fun own => if_neg (by omega)
    rw [getNextPacket, getNextPacket, hnone, hnone]
    rfl

lemma readLoop_moved (fuel : ℕ) (r : MessageReader) (size : ℕ) :
    readLoop false fuel r size = (readLoop true fuel r size).unasserted := by
  induction fuel generalizing r size with
  | zero => cases size <;> rfl
  | succ fuel ih =>
    cases size with
    | zero => rfl
    | succ size =>
      rw [readLoop, readLoop]
      cases r.packets[r.packet]? with
      | none => rfl
      | some packet =>
        have hnext : (if r.offset = packet.payload.length then getNextPacket false r else .returns r) =
            (if r.offset = packet.payload.length then getNextPacket true r else .returns r).unasserted := by
          split_ifs
          · exact getNextPacket_moved r
          · rfl
        dsimp only
        rw [hnext, Outcome.unasserted_bind]
        congr 1
        funext r'
        split_ifs
        · rfl
        · rw [Outcome.unasserted_map, ih]

lemma read_moved (r : MessageReader) (size : ℕ) : read false r size = (read true r size).unasserted :=
  readLoop_moved _ r size

lemma readLoop_failed_iff {fuel : ℕ} {r : MessageReader} {size : ℕ} (h : size + (r.packets.length - r.packet) ≤ fuel) :
    readLoop true fuel r size = .failed ↔ runsOut (payloadLengths r.packets r.packet) r.offset size = true := by
  induction fuel generalizing r size with
  | zero =>
    obtain rfl : size = 0 := by omega
    exact iff_of_false (fun he => by cases he) (by simp [runsOut_zero])
  | succ fuel ih =>
    cases size with
    | zero => exact iff_of_false (fun he => by cases he) (by simp [runsOut_zero])
    | succ size =>
      rw [readLoop]
      cases hp : r.packets[r.packet]? with
      | none =>
        rw [payloadLengths_eq_nil (List.getElem?_eq_none_iff.mp hp)]
        exact iff_of_false (fun he => by cases he) Bool.false_ne_true
      | some packet =>
        have hlt := (List.getElem?_eq_some_iff.mp hp).1
        rw [payloadLengths_eq_cons hp]
        dsimp only
        by_cases hend : r.offset = packet.payload.length
        · rw [if_pos hend, hend, runsOut_next _ _ (Nat.succ_pos size)]
          rcases Nat.lt_or_eq_of_le (Nat.succ_le_of_lt hlt) with hin | hlast
          · have hne : (payloadLengths r.packets (r.packet + 1)).isEmpty = false := by
              simpa [payloadLengths] using hin
            rw [getNextPacket_inside hin, Outcome.bind_returns, if_neg (Nat.not_lt_zero _), Outcome.map_eq_failed,
              ih (by dsimp only; omega), hne, Bool.false_or]
            simp only [Nat.zero_add, Nat.sub_zero]
          · rw [getNextPacket_last hlast, payloadLengths_eq_nil hlast.ge]
            exact iff_of_true rfl rfl
        · rw [if_neg hend, Outcome.bind_returns]
          by_cases hover : packet.payload.length < r.offset
          · rw [if_pos hover, runsOut, if_pos (Or.inr hover)]
            exact iff_of_false (fun he => by cases he) Bool.false_ne_true
          · rw [if_neg hover, Outcome.map_eq_failed, ih (by dsimp only; omega)]
            dsimp only
            rw [payloadLengths_eq_cons hp, runsOut_inside (not_lt.mp hover)]

lemma read_failed_iff {r : MessageReader} {size : ℕ} :
    read true r size = .failed ↔ runsOut (payloadLengths r.packets r.packet) r.offset size = true :=
  readLoop_failed_iff (by omega)

lemma getNextPacket_own (r : MessageReader) : (getNextPacket true r).toOption = r.getNextPacket := by
  rw [MessageReader.getNextPacket]
  rcases lt_trichotomy (r.packet + 1) r.packets.length with hlt | hlast | hgt
  · rw [getNextPacket_inside hlt, if_pos hlt]
    rfl
  · rw [getNextPacket_last hlast, if_neg (by omega)]
    rfl
  · rw [getNextPacket, Place.next, if_neg (by omega), if_neg (by omega)]
    rfl

lemma readLoop_own (fuel : ℕ) (r : MessageReader) (size : ℕ) :
    (readLoop true fuel r size).toOption = r.readLoop fuel size := by
  induction fuel generalizing r size with
  | zero => cases size <;> rfl
  | succ fuel ih =>
    cases size with
    | zero => rfl
    | succ size =>
      rw [readLoop, MessageReader.readLoop]
      cases r.packets[r.packet]? with
      | none => rfl
      | some packet =>
        rw [Outcome.toOption_bind, Option.bind_some]
        have hnext : (if r.offset = packet.payload.length then getNextPacket true r else .returns r).toOption =
            if r.offset = packet.payload.length then r.getNextPacket else some r := by
          split_ifs
          · exact getNextPacket_own r
          · rfl
        rw [hnext]
        refine Option.bind_congr fun r' _ => ?_
        split_ifs
        · rfl
        · rw [Outcome.toOption_map, ih]

lemma read_own (r : MessageReader) (size : ℕ) : (read true r size).toOption = r.read size := readLoop_own _ r size

lemma advance_inside {length : ℕ} (own : Bool) (size : ℕ) {last : ℕ} (h : last + size < length) :
    advance own length size last = .returns (last + size) := by
  induction size generalizing last with
  | zero => rfl
  | succ size ih =>
    rw [advance, Place.isEnd_of_lt (by omega), if_neg Bool.false_ne_true, Place.next_inside (by omega),
      Outcome.bind_returns, ih (by omega), Nat.add_right_comm, Nat.add_assoc]

lemma advance_own {length : ℕ} (size : ℕ) {last : ℕ} (h : last ≤ length) :
    advance true length size last = .returns (min (last + size) length) := by
  induction size generalizing last with
  | zero => rw [advance, Nat.add_zero, Nat.min_eq_left h]
  | succ size ih =>
    rw [advance]
    rcases h.lt_or_eq with hlt | heq
    · have hnext : Place.next true length last = .returns (last + 1) :=
        if_pos ((Nat.lt_or_eq_of_le hlt).imp_right fun h => ⟨rfl, h⟩)
      rw [Place.isEnd_of_lt hlt, if_neg Bool.false_ne_true, hnext, Outcome.bind_returns, ih hlt,
        Nat.succ_add_eq_add_succ]
    · rw [if_pos (by simp [Place.isEnd, heq]), heq, Nat.min_eq_right (by omega)]

lemma advance_moved {length : ℕ} (size : ℕ) {last : ℕ} (hlt : last < length) (h : length ≤ last + size) :
    advance false length size last = .undefined := by
  induction size generalizing last with
  | zero => omega
  | succ size ih =>
    rw [advance, Place.isEnd_of_lt hlt, if_neg Bool.false_ne_true]
    by_cases hnext : last + 1 < length
    · rw [Place.next_inside hnext, Outcome.bind_returns, ih hnext (by omega)]
    · rw [(Place.next_last (show last + 1 = length by omega)).2, Outcome.bind_undefined]

/-- A reader's current packet is one of its packets, unless it was constructed without any. -/
def WellFormed (r : MessageReader) : Prop := r.OnPacket ∨ r.packets = []

lemma readLoop_wellFormed {fuel size : ℕ} {r : MessageReader} {x : List UInt8 × MessageReader} (hr : r.OnPacket)
    (h : readLoop true fuel r size = .returns x) : x.2.OnPacket := by
  have hloop : r.readLoop fuel size = some x := by
    rw [← readLoop_own, h]
    rfl
  exact readLoop_onPacket hr hloop

lemma read_nil {r : MessageReader} (h : r.packets = []) (size : ℕ) (own : Bool) :
    read own r size = if size = 0 then .returns ([], r) else .undefined := by
  rw [read]
  cases size with
  | zero => rw [readLoop, if_pos rfl]
  | succ size => rw [Nat.add_right_comm, readLoop, h, List.getElem?_nil, if_neg (Nat.succ_ne_zero size)]

lemma readPackets_eq {own : Bool} {r : MessageReader} {x : List UInt8 × MessageReader}
    (h : read own r sizeWidth = .returns x) : readPackets own r =
      (Place.next own x.2.packets.length x.2.packet).bind fun start =>
        (advance own x.2.packets.length (ofBytes x.1) start).bind fun last =>
          if start < x.2.packets.length then
            let packets := x.2.packets.take start ++ x.2.packets.drop last
            match packets[x.2.packet]? with
            | none => .undefined
            | some packet =>
              .returns ((x.2.packets.take last).drop start, ⟨packets, x.2.packet, packet.payload.length⟩)
          else .undefined := by
  rw [readPackets, h]
  rfl

lemma spliced_returns {x : List UInt8 × MessageReader} {start : ℕ} (last : ℕ) (hx : x.2.packet < start)
    (hstart : start < x.2.packets.length) :
    ∃ packet, (x.2.packets.take start ++ x.2.packets.drop last)[x.2.packet]? = some packet := by
  rw [List.getElem?_append_left (by rw [List.length_take]; omega)]
  refine ⟨_, List.getElem?_eq_getElem ?_⟩
  rw [List.length_take]
  omega

lemma readPackets_last {own : Bool} {r : MessageReader} {x : List UInt8 × MessageReader}
    (h : read own r sizeWidth = .returns x) (hlast : x.2.packet + 1 = x.2.packets.length) :
    readPackets own r = .undefined := by
  rw [readPackets_eq h]
  cases own with
  | false => rw [(Place.next_last hlast).2, Outcome.bind_undefined]
  | true =>
    rw [(Place.next_last hlast).1, Outcome.bind_returns, hlast, advance_own _ le_rfl, Outcome.bind_returns,
      if_neg (lt_irrefl _)]

lemma readPackets_own {r : MessageReader} {x : List UInt8 × MessageReader} (h : read true r sizeWidth = .returns x)
    (hlt : x.2.packet + 1 < x.2.packets.length) : ∃ y, readPackets true r = .returns y := by
  obtain ⟨packet, hp⟩ := spliced_returns (min (x.2.packet + 1 + ofBytes x.1) x.2.packets.length)
    (Nat.lt_succ_self _) hlt
  rw [readPackets_eq h, Place.next_inside hlt, Outcome.bind_returns, advance_own _ hlt.le, Outcome.bind_returns,
    if_pos hlt]
  dsimp only
  rw [hp]
  exact ⟨_, rfl⟩

lemma readPackets_moved {r : MessageReader} {x : List UInt8 × MessageReader}
    (h : ∀ own, read own r sizeWidth = .returns x) (hlt : x.2.packet + 1 < x.2.packets.length) :
    readPackets false r = if x.2.packets.length ≤ x.2.packet + 1 + ofBytes x.1 then .undefined
      else readPackets true r := by
  by_cases hle : x.2.packets.length ≤ x.2.packet + 1 + ofBytes x.1
  · rw [if_pos hle, readPackets_eq (h false), Place.next_inside hlt, Outcome.bind_returns, advance_moved _ hlt hle,
      Outcome.bind_undefined]
  · rw [if_neg hle, readPackets_eq (h false), readPackets_eq (h true), Place.next_inside hlt, Place.next_inside hlt,
      Outcome.bind_returns, Outcome.bind_returns, advance_inside _ _ (by omega), advance_inside _ _ (by omega)]

lemma splice_clamped (ps : List Packet) (start n : ℕ) :
    (ps.take (min (start + n) ps.length)).drop start = (ps.drop start).take n ∧
      ps.drop (min (start + n) ps.length) = (ps.drop start).drop n := by
  constructor
  · rw [← List.take_eq_take_min, List.drop_take, Nat.add_sub_cancel_left]
  · rw [List.drop_drop]
    rcases le_total (start + n) ps.length with hle | hle
    · rw [Nat.min_eq_left hle]
    · rw [Nat.min_eq_right hle, List.drop_length, List.drop_eq_nil_of_le hle]

/-- A reader that was never moved is the reader of the message model. -/
lemma readPackets_toOption {r : MessageReader} (hr : r.OnPacket) :
    (readPackets true r).toOption = r.readPackets := by
  rw [MessageReader.readPackets, ← read_own]
  cases hx : read true r sizeWidth with
  | failed | undefined => rw [readPackets, hx]; rfl
  | returns x =>
    have hon := readLoop_wellFormed hr hx
    rw [Outcome.toOption_returns, Option.bind_some]
    rcases Nat.lt_or_eq_of_le (Nat.succ_le_of_lt hon) with hlt | hlast
    · obtain ⟨hps, hrest⟩ := splice_clamped x.2.packets (x.2.packet + 1) (ofBytes x.1)
      rw [readPackets_eq hx, Place.next_inside hlt, Outcome.bind_returns, advance_own _ hlt.le, Outcome.bind_returns,
        if_pos hlt, if_pos hlt, hps, hrest]
      dsimp only
      cases (x.2.packets.take (x.2.packet + 1) ++ (x.2.packets.drop (x.2.packet + 1)).drop (ofBytes x.1))[x.2.packet]?
        with
      | none => rfl
      | some packet => rfl
    · rw [readPackets_last hx hlast, if_neg (by omega)]
      rfl

lemma read_count {r : MessageReader} {x : List UInt8 × MessageReader} (hr : WellFormed r)
    (h : read true r sizeWidth = .returns x) : x.2.OnPacket := by
  rcases hr with hr | hnil
  · exact readLoop_wellFormed hr h
  · rw [read_nil hnil, if_neg (by decide)] at h
    cases h

lemma perform_inside {r : MessageReader} (hr : WellFormed r) (c : Call) (h : ¬ TouchesEnd r c) :
    perform false r c = perform true r c := by
  cases c with
  | getPackets => rfl
  | call c =>
    cases c with
    | getFreePackets => rfl
    | read size => rw [perform, perform, read_moved, Outcome.unasserted_of_ne fun hfail => h (read_failed_iff.mp hfail)]
    | readPackets =>
      obtain ⟨hread, hend⟩ := not_or.mp h
      have heq : readPackets false r = readPackets true r := by
        cases hx : read true r sizeWidth with
        | failed => exact absurd (read_failed_iff.mp hx) hread
        | undefined => rw [readPackets, readPackets, read_moved, hx]; rfl
        | returns x =>
          have hboth : ∀ own, read own r sizeWidth = .returns x := by
            intro own
            cases own with
            | true => exact hx
            | false => rw [read_moved, hx, Outcome.unasserted_returns]
          rcases Nat.lt_or_eq_of_le (Nat.succ_le_of_lt (read_count hr hx)) with hlt | hlast
          · rw [readPackets_moved hboth hlt, if_neg fun hle => hend ⟨x, hx, hlt, hle⟩]
          · rw [readPackets_last (hboth false) hlast, readPackets_last hx hlast]
      rw [perform, perform, heq]

lemma perform_end {r : MessageReader} (c : Call) (h : TouchesEnd r c) :
    perform false r c = .undefined ∧ perform true r c ≠ .undefined := by
  cases c with
  | getPackets => exact h.elim
  | call c =>
    cases c with
    | getFreePackets => exact h.elim
    | read size =>
      have hfail : read true r size = .failed := read_failed_iff.mpr h
      rw [perform, perform, read_moved, hfail]
      exact ⟨rfl, nofun⟩
    | readPackets =>
      rcases h with hout | ⟨x, hx, hlt, hle⟩
      · rw [perform, perform, readPackets, readPackets, read_moved, read_failed_iff.mpr hout]
        exact ⟨rfl, nofun⟩
      · obtain ⟨y, hy⟩ := readPackets_own hx hlt
        have hboth : ∀ own, read own r sizeWidth = .returns x := by
          intro own
          cases own with
          | true => exact hx
          | false => rw [read_moved, hx, Outcome.unasserted_returns]
        rw [perform, perform, readPackets_moved hboth hlt, if_pos hle, hy]
        exact ⟨rfl, nofun⟩

lemma read_wellFormed {r : MessageReader} {size : ℕ} {x : List UInt8 × MessageReader} (hr : WellFormed r)
    (h : read true r size = .returns x) : WellFormed x.2 := by
  rcases hr with hr | hnil
  · exact Or.inl (readLoop_wellFormed hr h)
  · rw [read_nil hnil] at h
    split_ifs at h
    cases h
    exact Or.inr hnil

lemma readPackets_wellFormed {r : MessageReader} {y : List Packet × MessageReader}
    (h : readPackets true r = .returns y) : WellFormed y.2 := by
  rw [readPackets] at h
  obtain ⟨x, _, h⟩ := Outcome.bind_eq_returns.mp h
  obtain ⟨start, _, h⟩ := Outcome.bind_eq_returns.mp h
  obtain ⟨last, _, h⟩ := Outcome.bind_eq_returns.mp h
  split_ifs at h
  dsimp only at h
  split at h
  · cases h
  · rename_i packet hp
    cases h
    exact Or.inl (List.getElem?_eq_some_iff.mp hp).1

lemma perform_wellFormed {r r' : MessageReader} {c : Call} {a : CallResult} (hr : WellFormed r)
    (h : perform true r c = .returns (a, some r')) : WellFormed r' := by
  cases c with
  | getPackets => cases h
  | call c =>
    cases c with
    | getFreePackets =>
      rw [perform] at h
      split_ifs at h with hlt
      cases h
      refine Or.inl ?_
      simp only [OnPacket, getFreePackets, List.length_drop]
      omega
    | read size =>
      obtain ⟨x, hx, he⟩ := Outcome.map_eq_returns.mp h
      cases he
      exact read_wellFormed hr hx
    | readPackets =>
      obtain ⟨x, hx, he⟩ := Outcome.map_eq_returns.mp h
      cases he
      exact readPackets_wellFormed hx

end Reader

def step (l : Located MessageReader) (c : Call) : Outcome (CallResult × Option (Located MessageReader)) :=
  (perform l.own l.members c).map fun x => (x.1, x.2.map fun r => { l with members := r })

def Inside (l : Located MessageReader) (c : Call) : Prop := l.own = true ∨ ¬ TouchesEnd l.members c

lemma step_matches {l : Located MessageReader} (hr : WellFormed l.members) {c : Call} (h : Inside l c) :
    Matches (Located.Tracks WellFormed) (step l c) (perform true l.members c) := by
  have heq : perform l.own l.members c = perform true l.members c := by
    cases hown : l.own with
    | true => rfl
    | false => exact perform_inside hr c (h.resolve_left (by simp [hown]))
  rw [step, heq]
  cases hp : perform true l.members c with
  | failed => exact .failed
  | undefined => exact .undefined
  | returns x =>
    obtain ⟨a, r'⟩ := x
    cases r' with
    | none => exact .givenUp a
    | some r' => exact .continues ⟨rfl, perform_wellFormed hr hp⟩

lemma step_undefined {l : Located MessageReader} {c : Call} (h : ¬ Inside l c) :
    step l c = .undefined ∧ perform true l.members c ≠ .undefined := by
  obtain ⟨hown, hend⟩ := not_or.mp h
  obtain ⟨hmoved, hne⟩ := perform_end c (not_not.mp hend)
  rw [step, Bool.eq_false_iff.mpr hown, hmoved]
  exact ⟨rfl, hne⟩

def initial (packets : List Packet) : MessageReader := ⟨packets, 0, frameCountSize⟩

lemma initial_wellFormed (packets : List Packet) : WellFormed (initial packets) := by
  cases packets with
  | nil => exact Or.inr rfl
  | cons p ps => exact Or.inl (Nat.succ_pos _)

end MessageReader.Moved

namespace MessageWriter.Moved

def getNextPacket (own : Bool) (w : MessageWriter) : Outcome MessageWriter :=
  (Place.next own w.packets.length w.packet).bind fun packet =>
    if Place.isEnd own w.packets.length packet then .failed
    else .returns { w with writedPacketNumber := (w.writedPacketNumber + 1) % seqLimit
                           packet := packet
                           offset := 0 }

def writeLoop (own : Bool) : ℕ → MessageWriter → List UInt8 → Outcome MessageWriter
  | _, w, [] => .returns w
  | 0, _, _ :: _ => .undefined
  | fuel + 1, w, src@(_ :: _) =>
    match w.packets[w.packet]? with
    | none => .undefined
    | some packet =>
      (if w.offset = packet.payload.length then getNextPacket own w else .returns w).bind fun w' =>
        if packet.payload.length < w'.offset then .undefined
        else
          let writeSize := min src.length (packet.payload.length - w'.offset)
          writeLoop own fuel (w'.copyTo w.packet (src.take writeSize)) (src.drop writeSize)

def write (own : Bool) (w : MessageWriter) (src : List UInt8) : Outcome MessageWriter :=
  writeLoop own (src.length + w.packets.length) w src

/-- The free packets are spliced from the stepped iterator on, which has to be at an element. The
new `_packet` is made from this object's list. -/
def writePackets (own : Bool) (w : MessageWriter) (ps : List Packet) : Outcome MessageWriter :=
  (write own w (toBytes sizeWidth ps.length)).bind fun w' =>
    if Place.isEnd own w'.packets.length w'.packet then .failed
    else (Place.next own w'.packets.length w'.packet).bind fun packet =>
      if packet < w'.packets.length then
        .returns ⟨w'.packets.take packet ++ ps ++ w'.packets.drop packet, packet + ps.length,
          (w'.writedPacketNumber + ps.length) % seqLimit, 0⟩
      else .undefined

def handOut (own : Bool) (w : MessageWriter) (packet : ℕ) : Outcome (List Packet × MessageWriter) :=
  if Place.isEnd own w.packets.length packet then .failed
  else
    match w.packets with
    | [] => .undefined
    | front :: rest =>
      if frameCountSize ≤ front.payload.length then
        let front' := front.withPayload
          (overwrite front.payload 0 (toBytes frameCountSize w.writedPacketNumber))
        (Place.next own w.packets.length packet).map fun last =>
          ((front' :: rest).take last, { w with packets := (front' :: rest).drop last, packet := 0 })
      else .undefined

def getWritedPackets (own : Bool) (w : MessageWriter) : Outcome (List Packet × MessageWriter) :=
  if Place.isBegin own w.packets.length w.packet ∧ w.offset = frameCountSize then .returns ([], w)
  else
    (if w.offset = 0 ∧ ¬ Place.isBegin own w.packets.length w.packet then Place.prev own w.packets.length w.packet
      else .returns w.packet).bind (handOut own w)

def getDataPackets (own : Bool) (w : MessageWriter) (size : ℕ) : Outcome (List Packet × MessageWriter) :=
  if Place.isEnd own w.packets.length w.packet then .failed
  else (Place.next own w.packets.length w.packet).bind fun first =>
    if first < w.packets.length then
      .returns ((w.packets.drop first).take size,
        { w with packets := w.packets.take first ++ (w.packets.drop first).drop size })
    else .undefined

inductive Call
  | call (c : MessageWriter.Call)
  | flush
  | getPackets

def perform (own : Bool) (w : MessageWriter) : Call → Outcome (CallResult × Option MessageWriter)
  | .call (.operation (.write src)) => (write own w src).map fun w' => (.done, some w')
  | .call (.operation (.packets ps)) => (writePackets own w ps).map fun w' => (.done, some w')
  | .call (.operation (.addFreePackets ps)) => .returns (.done, some (w.addFreePackets ps))
  | .call (.operation (.getDataPackets size)) => (getDataPackets own w size).map fun x => (.packets x.1, some x.2)
  | .call .getWritedPackets => (getWritedPackets own w).map fun x => (.packets x.1, some x.2)
  | .flush => .returns (.done, some w)
  | .getPackets => .returns (.packets w.packets, none)

def FrontFits (w : MessageWriter) : Prop := ∀ front ∈ w.packets.head?, frameCountSize ≤ front.payload.length

/-- The call brings an iterator to the end of the list, or finds it there. -/
def TouchesEnd (w : MessageWriter) : Call → Prop
  | .call (.operation (.write src)) => runsOut (payloadLengths w.packets w.packet) w.offset src.length = true
  | .call (.operation (.packets _)) => runsOut (payloadLengths w.packets w.packet) w.offset sizeWidth = true
  | .call (.operation (.getDataPackets _)) => w.packet = w.packets.length
  | .call .getWritedPackets =>
    (w.packet = w.packets.length ∧ (w.offset = 0 → FrontFits w)) ∨
      (w.packet + 1 = w.packets.length ∧ FrontFits w ∧ (w.packet = 0 → w.offset ≠ frameCountSize) ∧
        (w.offset = 0 → w.packet = 0))
  | _ => False

section Writer

variable {own : Bool} {w w' : MessageWriter}

lemma getNextPacket_inside (h : w.packet + 1 < w.packets.length) (own : Bool) :
    getNextPacket own w = .returns { w with writedPacketNumber := (w.writedPacketNumber + 1) % seqLimit
                                            packet := w.packet + 1
                                            offset := 0 } := by
  rw [getNextPacket, Place.next_inside h, Outcome.bind_returns, Place.isEnd_of_lt h]
  rfl

lemma getNextPacket_last (h : w.packet + 1 = w.packets.length) : getNextPacket true w = .failed := by
  rw [getNextPacket, (Place.next_last h).1, Outcome.bind_returns, if_pos (by simp [Place.isEnd, h])]

lemma getNextPacket_moved (w : MessageWriter) : getNextPacket false w = (getNextPacket true w).unasserted := by
  rcases lt_trichotomy (w.packet + 1) w.packets.length with hlt | hlast | hgt
  · rw [getNextPacket_inside hlt, getNextPacket_inside hlt]
    rfl
  · rw [getNextPacket_last hlast, getNextPacket, (Place.next_last hlast).2]
    rfl
  · have hnone : ∀ own, Place.next own w.packets.length w.packet = .undefined := fun own => if_neg (by omega)
    rw [getNextPacket, getNextPacket, hnone, hnone]
    rfl

lemma payloadLengths_copyTo {packet : Packet} {i : ℕ} {bytes : List UInt8} (hp : w.packets[i]? = some packet)
    (h : w.offset + bytes.length ≤ packet.payload.length) (j : ℕ) :
    payloadLengths (w.copyTo i bytes).packets j = payloadLengths w.packets j := by
  rw [payloadLengths, payloadLengths, copyTo, map_modify_eq fun p hi => ?_]
  cases hp.symm.trans hi
  rw [Packet.withPayload_payload, overwrite_length h]

lemma runsOut_copyTo {packet : Packet} {i : ℕ} (hp : w.packets[i]? = some packet) (h : w.offset ≤ packet.payload.length)
    (src : List UInt8) {n : ℕ} (hn : n = min src.length (packet.payload.length - w.offset)) :
    runsOut (payloadLengths (w.copyTo i (src.take n)).packets (w.copyTo i (src.take n)).packet)
        (w.copyTo i (src.take n)).offset (src.drop n).length =
      runsOut (payloadLengths w.packets w.packet) (w.offset + n) (src.length - n) := by
  have hlen : (src.take n).length = n := by
    rw [List.length_take]
    omega
  rw [payloadLengths_copyTo hp (by omega), List.length_drop]
  change runsOut _ (w.offset + (src.take n).length) _ = _
  rw [hlen]
  rfl

lemma writeLoop_failed_iff {fuel : ℕ} {w : MessageWriter} {src : List UInt8}
    (h : src.length + (w.packets.length - w.packet) ≤ fuel) :
    writeLoop true fuel w src = .failed ↔ runsOut (payloadLengths w.packets w.packet) w.offset src.length = true := by
  induction fuel generalizing w src with
  | zero =>
    obtain rfl : src = [] := List.length_eq_zero_iff.mp (by omega)
    exact iff_of_false (fun he => by cases he) (by simp [runsOut_zero])
  | succ fuel ih =>
    cases src with
    | nil => exact iff_of_false (fun he => by cases he) (by simp [runsOut_zero])
    | cons b bs =>
      rw [writeLoop]
      have hlen : (b :: bs).length = bs.length + 1 := rfl
      generalize b :: bs = src at *
      cases hp : w.packets[w.packet]? with
      | none =>
        rw [payloadLengths_eq_nil (List.getElem?_eq_none_iff.mp hp)]
        exact iff_of_false (fun he => by cases he) Bool.false_ne_true
      | some packet =>
        have hlt := (List.getElem?_eq_some_iff.mp hp).1
        rw [payloadLengths_eq_cons hp]
        dsimp only
        by_cases hend : w.offset = packet.payload.length
        · rw [if_pos hend, hend, runsOut_next _ _ (by omega)]
          rcases Nat.lt_or_eq_of_le (Nat.succ_le_of_lt hlt) with hin | hlast
          · have hne : (payloadLengths w.packets (w.packet + 1)).isEmpty = false := by
              simpa [payloadLengths] using hin
            let v : MessageWriter := { w with writedPacketNumber := (w.writedPacketNumber + 1) % seqLimit
                                              packet := w.packet + 1
                                              offset := 0 }
            have hround := runsOut_copyTo (w := v) hp (Nat.zero_le _) src rfl
            rw [getNextPacket_inside hin, Outcome.bind_returns, if_neg (Nat.not_lt_zero _), hne, Bool.false_or]
            refine (ih ?_).trans (iff_of_eq (congrArg (· = true) (hround.trans ?_)))
            · rw [copyTo_packets_length, List.length_drop]
              simp only [copyTo]
              omega
            · simp only [v, Nat.zero_add, Nat.sub_zero]
          · rw [getNextPacket_last hlast, payloadLengths_eq_nil hlast.ge]
            exact iff_of_true rfl rfl
        · rw [if_neg hend, Outcome.bind_returns]
          by_cases hover : packet.payload.length < w.offset
          · rw [if_pos hover, runsOut, if_pos (Or.inr hover)]
            exact iff_of_false (fun he => by cases he) Bool.false_ne_true
          · rw [if_neg hover, ih ?_, runsOut_copyTo hp (not_lt.mp hover) src rfl, payloadLengths_eq_cons hp,
              runsOut_inside (not_lt.mp hover)]
            rw [copyTo_packets_length, List.length_drop]
            simp only [copyTo]
            omega

lemma write_failed_iff {src : List UInt8} :
    write true w src = .failed ↔ runsOut (payloadLengths w.packets w.packet) w.offset src.length = true :=
  writeLoop_failed_iff (by omega)

lemma getNextPacket_own (w : MessageWriter) : (getNextPacket true w).toOption = w.getNextPacket := by
  rw [MessageWriter.getNextPacket]
  rcases lt_trichotomy (w.packet + 1) w.packets.length with hlt | hlast | hgt
  · rw [getNextPacket_inside hlt, if_pos hlt]
    rfl
  · rw [getNextPacket_last hlast, if_neg (by omega)]
    rfl
  · rw [getNextPacket, Place.next, if_neg (by omega), if_neg (by omega)]
    rfl

lemma writeLoop_moved (fuel : ℕ) (w : MessageWriter) (src : List UInt8) :
    writeLoop false fuel w src = (writeLoop true fuel w src).unasserted := by
  induction fuel generalizing w src with
  | zero => cases src <;> rfl
  | succ fuel ih =>
    cases src with
    | nil => rfl
    | cons b bs =>
      rw [writeLoop, writeLoop]
      cases w.packets[w.packet]? with
      | none => rfl
      | some packet =>
        have hnext : (if w.offset = packet.payload.length then getNextPacket false w else .returns w) =
            (if w.offset = packet.payload.length then getNextPacket true w else .returns w).unasserted := by
          split_ifs
          · exact getNextPacket_moved w
          · rfl
        dsimp only
        rw [hnext, Outcome.unasserted_bind]
        congr 1
        funext w'
        split_ifs
        · rfl
        · exact ih _ _

lemma writeLoop_own (fuel : ℕ) (w : MessageWriter) (src : List UInt8) :
    (writeLoop true fuel w src).toOption = w.writeLoop fuel src := by
  induction fuel generalizing w src with
  | zero => cases src <;> rfl
  | succ fuel ih =>
    cases src with
    | nil => rfl
    | cons b bs =>
      rw [writeLoop, MessageWriter.writeLoop]
      cases w.packets[w.packet]? with
      | none => rfl
      | some packet =>
        have hnext : (if w.offset = packet.payload.length then getNextPacket true w else .returns w).toOption =
            if w.offset = packet.payload.length then w.getNextPacket else some w := by
          split_ifs
          · exact getNextPacket_own w
          · rfl
        rw [Outcome.toOption_bind, Option.bind_some, hnext]
        refine Option.bind_congr fun w' _ => ?_
        split_ifs
        · rfl
        · exact ih _ _

lemma write_moved (w : MessageWriter) (src : List UInt8) : write false w src = (write true w src).unasserted :=
  writeLoop_moved _ w src

lemma write_own (w : MessageWriter) (src : List UInt8) : (write true w src).toOption = w.write src :=
  writeLoop_own _ w src

def WellFormed (w : MessageWriter) : Prop := w.packet ≤ w.packets.length

lemma write_packet_lt {src : List UInt8} (hsrc : src ≠ []) (h : write true w src = .returns w') :
    w'.packet < w'.packets.length := by
  refine (write_advances (w := w) hsrc ?_).1.packet_lt
  rw [← write_own, h]
  rfl

lemma count_ne_nil (ps : List Packet) : toBytes sizeWidth ps.length ≠ [] :=
  List.ne_nil_of_length_pos (by rw [toBytes_length]; decide)

lemma writeCount_failed_iff {ps : List Packet} : write true w (toBytes sizeWidth ps.length) = .failed ↔
    runsOut (payloadLengths w.packets w.packet) w.offset sizeWidth = true := by
  rw [write_failed_iff, toBytes_length]

lemma writePackets_inside (ps : List Packet) (h : write true w (toBytes sizeWidth ps.length) ≠ .failed) :
    writePackets false w ps = writePackets true w ps := by
  rw [writePackets, writePackets, write_moved, Outcome.unasserted_of_ne h]
  cases hw : write true w (toBytes sizeWidth ps.length) with
  | failed | undefined => rfl
  | returns w' =>
    have hlt := write_packet_lt (count_ne_nil ps) hw
    rw [Outcome.bind_returns, Outcome.bind_returns, Place.isEnd_of_lt hlt, Place.isEnd_of_lt hlt,
      if_neg Bool.false_ne_true, if_neg Bool.false_ne_true]
    rcases Nat.lt_or_eq_of_le (Nat.succ_le_of_lt hlt) with hin | hlast
    · rw [Place.next_inside hin, Place.next_inside hin]
    · rw [(Place.next_last hlast).1, (Place.next_last hlast).2, Outcome.bind_undefined, Outcome.bind_returns,
        if_neg (by omega)]

lemma getDataPackets_moved (size : ℕ) (hw : WellFormed w) : getDataPackets false w size =
    if w.packet = w.packets.length then .undefined else getDataPackets true w size := by
  by_cases hend : w.packet = w.packets.length
  · rw [if_pos hend, getDataPackets, Place.next_end hend]
    rfl
  · have hlt : w.packet < w.packets.length := lt_of_le_of_ne hw hend
    rw [if_neg hend, getDataPackets, getDataPackets, Place.isEnd_of_lt hlt, Place.isEnd_of_lt hlt,
      if_neg Bool.false_ne_true, if_neg Bool.false_ne_true]
    rcases Nat.lt_or_eq_of_le (Nat.succ_le_of_lt hlt) with hin | hlast
    · rw [Place.next_inside hin, Place.next_inside hin]
    · rw [(Place.next_last hlast).1, (Place.next_last hlast).2, Outcome.bind_undefined, Outcome.bind_returns,
        if_neg (by omega)]

lemma getDataPackets_end (size : ℕ) (h : w.packet = w.packets.length) : getDataPackets true w size = .failed :=
  if_pos (by simp [Place.isEnd, h])

lemma handOut_eq {front : Packet} {rest : List Packet} (hw : w.packets = front :: rest) (own : Bool) {packet : ℕ}
    (hlt : packet < w.packets.length) : handOut own w packet = if frameCountSize ≤ front.payload.length then
      (Place.next own w.packets.length packet).map fun last =>
        let packets := front.withPayload (overwrite front.payload 0 (toBytes frameCountSize w.writedPacketNumber)) :: rest
        (packets.take last, { w with packets := packets.drop last, packet := 0 })
    else .undefined := by
  rw [handOut, Place.isEnd_of_lt hlt, if_neg Bool.false_ne_true, hw]

lemma handOut_inside {packet : ℕ} (h : packet + 1 < w.packets.length) :
    handOut false w packet = handOut true w packet := by
  obtain ⟨front, rest, hw⟩ := List.exists_cons_of_length_pos (Nat.zero_lt_of_lt h)
  rw [handOut_eq hw false (Nat.lt_of_succ_lt h), handOut_eq hw true (Nat.lt_of_succ_lt h), Place.next_inside h,
    Place.next_inside h]

lemma handOut_last {packet : ℕ} (h : packet + 1 = w.packets.length) :
    handOut false w packet = .undefined ∧ (FrontFits w ↔ handOut true w packet ≠ .undefined) := by
  obtain ⟨front, rest, hw⟩ := List.exists_cons_of_length_pos (l := w.packets) (by omega)
  have hlt : packet < w.packets.length := by omega
  rw [handOut_eq hw false hlt, handOut_eq hw true hlt, (Place.next_last h).1, (Place.next_last h).2, FrontFits, hw]
  simp only [List.head?_cons, Option.mem_def, Option.some.injEq, forall_eq']
  split_ifs with hfits
  · exact ⟨rfl, iff_of_true hfits nofun⟩
  · exact ⟨rfl, iff_of_false hfits fun hne => hne rfl⟩

lemma handOut_end {packet : ℕ} (h : packet = w.packets.length) :
    handOut false w packet = .undefined ∧ handOut true w packet = .failed := by
  refine ⟨?_, if_pos (by simp [Place.isEnd, h])⟩
  rw [handOut, Place.next_end h, if_neg (by simp [Place.isEnd])]
  cases w.packets with
  | nil => rfl
  | cons front rest =>
    dsimp only
    split_ifs <;> rfl

lemma isBegin_of_lt (own : Bool) (h : w.packet < w.packets.length) :
    Place.isBegin own w.packets.length w.packet = decide (w.packet = 0) := by
  rw [Place.isBegin, Bool.eq_iff_iff, Bool.and_eq_true, Bool.or_eq_true, bne_iff_ne, beq_iff_eq, decide_eq_true_iff]
  exact and_iff_left (Or.inr (by omega))

lemma getWritedPackets_eq (own : Bool) (h : w.packet < w.packets.length) : getWritedPackets own w =
    if w.packet = 0 ∧ w.offset = frameCountSize then .returns ([], w)
    else handOut own w (if w.offset = 0 ∧ w.packet ≠ 0 then w.packet - 1 else w.packet) := by
  simp only [getWritedPackets, isBegin_of_lt own h, decide_eq_true_iff]
  split_ifs with hnone hzero
  · rfl
  · rw [Place.prev, if_neg (by rintro (h0 | ⟨_, hl⟩) <;> omega), Outcome.bind_returns]
  · rfl

lemma getWritedPackets_at_end (h : w.packet = w.packets.length) (hpos : 0 < w.packets.length) (hzero : w.offset = 0) :
    getWritedPackets false w = .undefined ∧
      getWritedPackets true w = handOut true w (w.packets.length - 1) := by
  have hbegin : ∀ own, Place.isBegin own w.packets.length w.packet = false := fun own => by
    rw [Place.isBegin, h, beq_eq_false_iff_ne.mpr (by omega), Bool.false_and]
  have hback : Place.prev true w.packets.length w.packet = .returns (w.packets.length - 1) := by
    rw [Place.prev, h]
    exact if_neg (by rintro (h0 | ⟨h0, _⟩) <;> [omega; cases h0])
  simp only [getWritedPackets, hbegin, Bool.false_eq_true, false_and, if_false, not_false_eq_true, and_true, hzero,
    if_true, hback, Outcome.bind_returns]
  rw [Place.prev, if_pos (Or.inr ⟨rfl, h⟩), Outcome.bind_undefined]

lemma getWritedPackets_written (own : Bool) (hzero : w.offset ≠ 0)
    (hbegin : Place.isBegin own w.packets.length w.packet = false) :
    getWritedPackets own w = handOut own w w.packet := by
  simp only [getWritedPackets, hbegin, Bool.false_eq_true, false_and, if_false, hzero, Outcome.bind_returns]

lemma frontFits_nil (h : w.packets = []) : FrontFits w := by
  rw [FrontFits, h]
  exact nofun

lemma getWritedPackets_inside (hw : WellFormed w) (h : ¬ TouchesEnd w (.call .getWritedPackets)) :
    getWritedPackets false w = getWritedPackets true w := by
  obtain ⟨hend, hlast⟩ := not_or.mp h
  rcases lt_or_eq_of_le hw with hlt | heq
  · rw [getWritedPackets_eq false hlt, getWritedPackets_eq true hlt]
    split_ifs with hnone hzero
    · rfl
    · exact handOut_inside (by omega)
    · rcases Nat.lt_or_eq_of_le (Nat.succ_le_of_lt hlt) with hin | he
      · exact handOut_inside hin
      · obtain ⟨hmoved, hfits⟩ := handOut_last he
        have hown := not_not.mp fun hne => hlast ⟨he, hfits.mpr hne, fun h0 h4 => hnone ⟨h0, h4⟩,
          fun h0 => not_not.mp fun hp => hzero ⟨h0, hp⟩⟩
        rw [hmoved, hown]
  · -- both are undefined: the front packet is too short for the count
    obtain ⟨hzero, hshort⟩ := Classical.not_imp.mp fun hfits => hend ⟨heq, hfits⟩
    have hpos : 0 < w.packets.length := List.length_pos_of_ne_nil fun hnil => hshort (frontFits_nil hnil)
    have hown := not_not.mp fun hne => hshort ((handOut_last (Nat.sub_add_cancel hpos)).2.mpr hne)
    obtain ⟨hmoved, hkept⟩ := getWritedPackets_at_end heq hpos hzero
    rw [hmoved, hkept, hown]

lemma getWritedPackets_empty (h : w.packets.length = 0) (hend : w.packet = w.packets.length) :
    getWritedPackets false w = .undefined ∧ getWritedPackets true w ≠ .undefined := by
  have hown : Place.isBegin true w.packets.length w.packet = true := by simp [Place.isBegin, hend, h]
  have hmoved : Place.isBegin false w.packets.length w.packet = false := by simp [Place.isBegin, h]
  constructor
  · by_cases hzero : w.offset = 0
    · simp only [getWritedPackets, hmoved, Bool.false_eq_true, false_and, if_false, not_false_eq_true, and_true, hzero,
        if_true]
      rw [Place.prev, if_pos (Or.inl (hend.trans h)), Outcome.bind_undefined]
    · rw [getWritedPackets_written false hzero hmoved]
      exact (handOut_end hend).1
  · simp only [getWritedPackets, hown, true_and, not_true_eq_false, and_false, if_false]
    split_ifs
    · simp
    · rw [Outcome.bind_returns, (handOut_end hend).2]
      simp

lemma getWritedPackets_end (h : TouchesEnd w (.call .getWritedPackets)) :
    getWritedPackets false w = .undefined ∧ getWritedPackets true w ≠ .undefined := by
  rcases h with ⟨hend, hfits⟩ | ⟨hlast, hfits, hbegin, hzero⟩
  · rcases Nat.eq_zero_or_pos w.packets.length with hnil | hpos
    · exact getWritedPackets_empty hnil hend
    · by_cases h0 : w.offset = 0
      · obtain ⟨hmoved, hkept⟩ := getWritedPackets_at_end hend hpos h0
        rw [hmoved, hkept]
        exact ⟨rfl, (handOut_last (Nat.sub_add_cancel hpos)).2.mp (hfits h0)⟩
      · have hnot : ∀ own, Place.isBegin own w.packets.length w.packet = false := fun own => by
          rw [Place.isBegin, hend, beq_eq_false_iff_ne.mpr (by omega), Bool.false_and]
        rw [getWritedPackets_written false h0 (hnot _), getWritedPackets_written true h0 (hnot _),
          (handOut_end hend).1, (handOut_end hend).2]
        simp
  · have hlt : w.packet < w.packets.length := by omega
    have hnone : ¬ (w.packet = 0 ∧ w.offset = frameCountSize) := fun hn => hbegin hn.1 hn.2
    rw [getWritedPackets_eq false hlt, getWritedPackets_eq true hlt, if_neg hnone, if_neg hnone,
      if_neg fun hn => hn.2 (hzero hn.1)]
    exact ⟨(handOut_last hlast).1, (handOut_last hlast).2.mp hfits⟩

lemma perform_inside (hw : WellFormed w) (c : Call) (h : ¬ TouchesEnd w c) :
    perform false w c = perform true w c := by
  cases c with
  | flush | getPackets => rfl
  | call c =>
    cases c with
    | getWritedPackets => rw [perform, perform, getWritedPackets_inside hw h]
    | operation op =>
      cases op with
      | write src => rw [perform, perform, write_moved, Outcome.unasserted_of_ne fun hfail => h (write_failed_iff.mp hfail)]
      | packets ps => rw [perform, perform, writePackets_inside ps fun hfail => h (writeCount_failed_iff.mp hfail)]
      | addFreePackets ps => rfl
      | getDataPackets size =>
        have hne : w.packet ≠ w.packets.length := h
        rw [perform, perform, getDataPackets_moved size hw, if_neg hne]

lemma perform_end (hw : WellFormed w) (c : Call) (h : TouchesEnd w c) :
    perform false w c = .undefined ∧ perform true w c ≠ .undefined := by
  cases c with
  | flush | getPackets => exact h.elim
  | call c =>
    cases c with
    | getWritedPackets =>
      obtain ⟨hmoved, hown⟩ := getWritedPackets_end h
      rw [perform, perform, hmoved]
      refine ⟨rfl, fun he => hown ?_⟩
      generalize getWritedPackets true w = x at he
      cases x with
      | undefined => rfl
      | returns x | failed => cases he
    | operation op =>
      cases op with
      | addFreePackets ps => exact h.elim
      | write src =>
        have hfail : write true w src = .failed := write_failed_iff.mpr h
        rw [perform, perform, write_moved, hfail]
        exact ⟨rfl, nofun⟩
      | packets ps =>
        have hfail : write true w (toBytes sizeWidth ps.length) = .failed := writeCount_failed_iff.mpr h
        rw [perform, perform, writePackets, writePackets, write_moved, hfail]
        exact ⟨rfl, nofun⟩
      | getDataPackets size =>
        have hend : w.packet = w.packets.length := h
        rw [perform, perform, getDataPackets_moved size hw, if_pos hend, getDataPackets_end size hend]
        exact ⟨rfl, nofun⟩

lemma writePackets_toOption (w : MessageWriter) (ps : List Packet) :
    (writePackets true w ps).toOption = w.writePackets ps := by
  rw [writePackets, MessageWriter.writePackets, Outcome.toOption_bind, write_own]
  refine Option.bind_congr fun v hv => ?_
  have hlt := (write_advances (count_ne_nil ps) hv).1.packet_lt
  rw [Place.isEnd_of_lt hlt, if_neg Bool.false_ne_true]
  rcases Nat.lt_or_eq_of_le (Nat.succ_le_of_lt hlt) with hin | hlast
  · rw [Place.next_inside hin, Outcome.bind_returns, if_pos hin, if_pos hin]
    rfl
  · rw [(Place.next_last hlast).1, Outcome.bind_returns, if_neg (by omega), if_neg (by omega)]
    rfl

lemma getDataPackets_toOption (hw : WellFormed w) (size : ℕ) :
    (getDataPackets true w size).toOption = w.getDataPackets size := by
  rw [MessageWriter.getDataPackets]
  rcases lt_or_eq_of_le hw with hlt | heq
  · rw [getDataPackets, Place.isEnd_of_lt hlt, if_neg Bool.false_ne_true]
    rcases Nat.lt_or_eq_of_le (Nat.succ_le_of_lt hlt) with hin | hlast
    · rw [Place.next_inside hin, Outcome.bind_returns, if_pos hin, if_pos hin]
      rfl
    · rw [(Place.next_last hlast).1, Outcome.bind_returns, if_neg (by omega), if_neg (by omega)]
      rfl
  · rw [getDataPackets_end size heq, if_neg (by omega)]
    rfl

lemma getWritedPackets_toOption (hlt : w.packet < w.packets.length) :
    (getWritedPackets true w).toOption = w.getWritedPackets := by
  obtain ⟨front, rest, hps⟩ := List.exists_cons_of_length_pos (Nat.zero_lt_of_lt hlt)
  rw [getWritedPackets_eq true hlt, MessageWriter.getWritedPackets]
  generalize hp : (if w.offset = 0 ∧ w.packet ≠ 0 then w.packet - 1 else w.packet) = packet
  have hpacket : packet < w.packets.length := by
    rw [← hp]
    split_ifs <;> omega
  have hnext : Place.next true w.packets.length packet = .returns (packet + 1) :=
    if_pos ((Nat.lt_or_eq_of_le (Nat.succ_le_of_lt hpacket)).imp_right fun h => ⟨rfl, h⟩)
  split_ifs with hnone
  · rfl
  · rw [handOut_eq hps true hpacket, hnext, hps]
    rw [hps] at hpacket
    by_cases hfits : frameCountSize ≤ front.payload.length
    · simp only [if_pos hfits, if_pos (And.intro hpacket hfits)]
      rfl
    · simp only [if_neg hfits, if_neg fun h : packet < (front :: rest).length ∧ _ => hfits h.2]
      rfl

lemma handOut_wellFormed {packet : ℕ} {x : List Packet × MessageWriter}
    (h : handOut true w packet = .returns x) : WellFormed x.2 := by
  rw [handOut] at h
  split_ifs at h
  split at h
  · cases h
  · split_ifs at h
    obtain ⟨last, _, rfl⟩ := Outcome.map_eq_returns.mp h
    exact Nat.zero_le _

lemma getWritedPackets_wellFormed (hw : WellFormed w) {x : List Packet × MessageWriter}
    (h : getWritedPackets true w = .returns x) : WellFormed x.2 := by
  rw [getWritedPackets] at h
  split_ifs at h with hnone
  · cases h
    exact hw
  all_goals
    obtain ⟨packet, _, hx⟩ := Outcome.bind_eq_returns.mp h
    exact handOut_wellFormed hx

lemma write_wellFormed (hw : WellFormed w) {src : List UInt8} (h : write true w src = .returns w') : WellFormed w' := by
  by_cases hsrc : src = []
  · rw [hsrc, write, writeLoop] at h
    cases h
    exact hw
  · exact (write_packet_lt hsrc h).le

lemma writePackets_wellFormed {ps : List Packet} (h : writePackets true w ps = .returns w') : WellFormed w' := by
  rw [writePackets] at h
  obtain ⟨v, _, h⟩ := Outcome.bind_eq_returns.mp h
  split_ifs at h
  obtain ⟨packet, _, h⟩ := Outcome.bind_eq_returns.mp h
  split_ifs at h
  cases h
  simp only [WellFormed, List.length_append, List.length_take, List.length_drop]
  omega

lemma getDataPackets_wellFormed {size : ℕ} {x : List Packet × MessageWriter}
    (h : getDataPackets true w size = .returns x) : WellFormed x.2 := by
  rw [getDataPackets] at h
  split_ifs at h
  obtain ⟨first, hfirst, h⟩ := Outcome.bind_eq_returns.mp h
  split_ifs at h
  cases h
  have hstep : first = w.packet + 1 := by
    rw [Place.next] at hfirst
    split_ifs at hfirst
    cases hfirst
    rfl
  simp only [WellFormed, List.length_append, List.length_take, List.length_drop]
  omega

lemma addFreePackets_wellFormed (hw : WellFormed w) (ps : List Packet) : WellFormed (w.addFreePackets ps) := by
  simp only [WellFormed, addFreePackets, List.length_append] at hw ⊢
  split_ifs <;> omega

lemma perform_wellFormed (hw : WellFormed w) {c : Call} {a : CallResult} (h : perform true w c = .returns (a, some w')) :
    WellFormed w' := by
  cases c with
  | getPackets => cases h
  | flush =>
    cases h
    exact hw
  | call c =>
    cases c with
    | getWritedPackets =>
      obtain ⟨x, hx, he⟩ := Outcome.map_eq_returns.mp h
      cases he
      exact getWritedPackets_wellFormed hw hx
    | operation op =>
      cases op with
      | addFreePackets ps =>
        cases h
        exact addFreePackets_wellFormed hw ps
      | write src =>
        obtain ⟨v, hv, he⟩ := Outcome.map_eq_returns.mp h
        cases he
        exact write_wellFormed hw hv
      | packets ps =>
        obtain ⟨v, hv, he⟩ := Outcome.map_eq_returns.mp h
        cases he
        exact writePackets_wellFormed hv
      | getDataPackets size =>
        obtain ⟨x, hx, he⟩ := Outcome.map_eq_returns.mp h
        cases he
        exact getDataPackets_wellFormed hx

end Writer

def Call.isPackets : Call → Bool
  | .call (.operation op) => op.isPackets
  | _ => false

def step (l : Located MessageWriter) (c : Call) : Outcome (CallResult × Option (Located MessageWriter)) :=
  (perform l.own l.members c).map fun x => (x.1, x.2.map fun w =>
    { l with container := if c.isPackets then l.object else l.container, members := w })

def Inside (l : Located MessageWriter) (c : Call) : Prop := l.own = true ∨ ¬ TouchesEnd l.members c

lemma step_matches {l : Located MessageWriter} (hw : WellFormed l.members) {c : Call} (h : Inside l c) :
    Matches (Located.Tracks WellFormed) (step l c) (perform true l.members c) := by
  have heq : perform l.own l.members c = perform true l.members c := by
    cases hown : l.own with
    | true => rfl
    | false => exact perform_inside hw c (h.resolve_left (by simp [hown]))
  rw [step, heq]
  cases hp : perform true l.members c with
  | failed => exact .failed
  | undefined => exact .undefined
  | returns x =>
    obtain ⟨a, w'⟩ := x
    cases w' with
    | none => exact .givenUp a
    | some w' => exact .continues ⟨rfl, perform_wellFormed hw hp⟩

lemma step_undefined {l : Located MessageWriter} (hw : WellFormed l.members) {c : Call} (h : ¬ Inside l c) :
    step l c = .undefined ∧ perform true l.members c ≠ .undefined := by
  obtain ⟨hown, hend⟩ := not_or.mp h
  obtain ⟨hmoved, hne⟩ := perform_end hw c (not_not.mp hend)
  rw [step, Bool.eq_false_iff.mpr hown, hmoved]
  exact ⟨rfl, hne⟩

end MessageWriter.Moved

/-- A moved object answers as one that stayed where it was exactly while no call brings its kept
iterator to the end of the list. -/
theorem moves_transparent_iff (packets : List Packet) :
    (∀ es : List (Event ℕ MessageReader.Moved.Call),
      resultsThrough Located.move MessageReader.Moved.step (.constructed (MessageReader.Moved.initial packets)) es =
          results (MessageReader.Moved.perform true) (MessageReader.Moved.initial packets) (calls es) ↔
        Keeps Located.move MessageReader.Moved.step MessageReader.Moved.Inside
          (.constructed (MessageReader.Moved.initial packets)) es) ∧
    ∀ es : List (Event ℕ MessageWriter.Moved.Call),
      resultsThrough Located.move MessageWriter.Moved.step (.constructed (MessageWriter.create packets)) es =
          results (MessageWriter.Moved.perform true) (MessageWriter.create packets) (calls es) ↔
        Keeps Located.move MessageWriter.Moved.step MessageWriter.Moved.Inside
          (.constructed (MessageWriter.create packets)) es := by
  constructor
  · refine fun es => results_eq_iff (Located.Tracks MessageReader.Moved.WellFormed) Located.Tracks.move ?_ ?_
      (Located.tracks_constructed (MessageReader.Moved.initial_wellFormed packets)) es
    · rintro l r c ⟨rfl, hr⟩ hc
      exact MessageReader.Moved.step_matches hr hc
    · rintro l r c ⟨rfl, hr⟩ hc
      exact MessageReader.Moved.step_undefined hc
  · refine fun es => results_eq_iff (Located.Tracks MessageWriter.Moved.WellFormed) Located.Tracks.move ?_ ?_
      (Located.tracks_constructed (Nat.zero_le _)) es
    · rintro l w c ⟨rfl, hw⟩ hc
      exact MessageWriter.Moved.step_matches hw hc
    · rintro l w c ⟨rfl, hw⟩ hc
      exact MessageWriter.Moved.step_undefined hw hc

def shortMessage : List Packet :=
  [.ofPayload [2, 0, 0, 0, 7, 0, 0, 0, 2, 0, 0, 0, 0, 0, 0, 0], .ofPayload [9]]

theorem moved_reader_misses_end :
    ¬ ∀ (packets : List Packet) (es : List (Event ℕ MessageReader.Moved.Call)),
      resultsThrough Located.move MessageReader.Moved.step (.constructed (MessageReader.Moved.initial packets)) es =
        results (MessageReader.Moved.perform true) (MessageReader.Moved.initial packets) (calls es) := by
  intro h
  have hshort := h shortMessage [.call (.call (.read 4)), .silent 1, .call (.call .readPackets)]
  revert hshort
  decide

end FastTransport.Protocol
