import FastTransport.Lib.Lists
import FastTransport.Lib.Packing
import FastTransport.Lib.Records
import FastTransport.Protocol.Packet

/-! `DirectoryEntryWriter`: directory entries are written into packets one after another, none over the end of one. -/

namespace FastTransport.Protocol

open Lib.Bytes Lib.Lists Lib.Packing Lib.Records

structure FuseAttr where
  ino : UInt64
  size : UInt64
  blocks : UInt64
  atime : UInt64
  mtime : UInt64
  ctime : UInt64
  atimensec : UInt32
  mtimensec : UInt32
  ctimensec : UInt32
  mode : UInt32
  nlink : UInt32
  uid : UInt32
  gid : UInt32
  rdev : UInt32
  blksize : UInt32
  flags : UInt32
  deriving DecidableEq, Repr

structure FuseEntryOut where
  nodeid : UInt64
  generation : UInt64
  entryValid : UInt64
  attrValid : UInt64
  entryValidNsec : UInt32
  attrValidNsec : UInt32
  attr : FuseAttr
  deriving DecidableEq, Repr

structure FuseDirent where
  ino : UInt64
  off : UInt64
  namelen : UInt32
  type : UInt32
  deriving DecidableEq, Repr

structure FuseDirentPlus where
  entryOut : FuseEntryOut
  dirent : FuseDirent
  deriving DecidableEq, Repr

structure FileStat where
  ino : UInt64
  mode : UInt32
  nlink : UInt64
  uid : UInt32
  gid : UInt32
  rdev : UInt64
  size : UInt64
  blksize : UInt64
  blocks : UInt64
  atime : UInt64
  mtime : UInt64
  ctime : UInt64
  atimensec : UInt64
  mtimensec : UInt64
  ctimensec : UInt64
  deriving DecidableEq, Repr

def FileStat.zero : FileStat := ⟨0, 0, 0, 0, 0, 0, 0, 0, 0, 0, 0, 0, 0, 0, 0⟩

namespace FuseDirent

def widths : List ℕ := [8, 8, 4, 4]

def toFields (d : FuseDirent) : List ℕ := [d.ino.toNat, d.off.toNat, d.namelen.toNat, d.type.toNat]

def ofFields (ns : List ℕ) : FuseDirent :=
  ⟨.ofNat (ns.getD 0 0), .ofNat (ns.getD 1 0), .ofNat (ns.getD 2 0), .ofNat (ns.getD 3 0)⟩

lemma fits (d : FuseDirent) : List.Forall₂ (fun width n => n < 256 ^ width) widths d.toFields := by
  simp only [widths, toFields, List.forall₂_cons, List.forall₂_nil_left_iff, and_true]
  exact ⟨d.ino.toNat_lt, d.off.toNat_lt, d.namelen.toNat_lt, d.type.toNat_lt⟩

lemma ofFields_toFields (d : FuseDirent) : ofFields d.toFields = d := by
  simp [ofFields, toFields]

def layout : Layout FuseDirent where
  headerSize := 24
  encode d := encodeFields widths d.toFields
  decode bytes := ofFields (decodeFields widths bytes)
  nameLength d := d.namelen.toNat
  length_encode d := length_encodeFields d.fits.length_eq.symm
  decode_encode d := by rw [decodeFields_encodeFields d.fits, ofFields_toFields]

end FuseDirent

namespace FuseDirentPlus

def widths : List ℕ := [8, 8, 8, 8, 4, 4, 8, 8, 8, 8, 8, 8, 4, 4, 4, 4, 4, 4, 4, 4, 4, 4, 8, 8, 4, 4]

def toFields (d : FuseDirentPlus) : List ℕ :=
  let e := d.entryOut
  let a := e.attr
  [e.nodeid.toNat, e.generation.toNat, e.entryValid.toNat, e.attrValid.toNat, e.entryValidNsec.toNat,
    e.attrValidNsec.toNat, a.ino.toNat, a.size.toNat, a.blocks.toNat, a.atime.toNat, a.mtime.toNat, a.ctime.toNat,
    a.atimensec.toNat, a.mtimensec.toNat, a.ctimensec.toNat, a.mode.toNat, a.nlink.toNat, a.uid.toNat, a.gid.toNat,
    a.rdev.toNat, a.blksize.toNat, a.flags.toNat, d.dirent.ino.toNat, d.dirent.off.toNat, d.dirent.namelen.toNat,
    d.dirent.type.toNat]

def ofFields (ns : List ℕ) : FuseDirentPlus :=
  let long := fun i => UInt64.ofNat (ns.getD i 0)
  let int := fun i => UInt32.ofNat (ns.getD i 0)
  ⟨⟨long 0, long 1, long 2, long 3, int 4, int 5,
      ⟨long 6, long 7, long 8, long 9, long 10, long 11, int 12, int 13, int 14, int 15, int 16, int 17, int 18,
        int 19, int 20, int 21⟩⟩,
    ⟨long 22, long 23, int 24, int 25⟩⟩

lemma fits (d : FuseDirentPlus) : List.Forall₂ (fun width n => n < 256 ^ width) widths d.toFields := by
  have hlong (n : UInt64) : n.toNat < 256 ^ 8 := n.toNat_lt
  have hint (n : UInt32) : n.toNat < 256 ^ 4 := n.toNat_lt
  simp only [widths, toFields, List.forall₂_cons, List.forall₂_nil_left_iff, hlong, hint, and_self]

lemma ofFields_toFields (d : FuseDirentPlus) : ofFields d.toFields = d := by
  simp [ofFields, toFields]

def layout : Layout FuseDirentPlus where
  headerSize := 152
  encode d := encodeFields widths d.toFields
  decode bytes := ofFields (decodeFields widths bytes)
  nameLength d := d.dirent.namelen.toNat
  length_encode d := length_encodeFields d.fits.length_eq.symm
  decode_encode d := by rw [decodeFields_encodeFields d.fits, ofFields_toFields]

end FuseDirentPlus

def convertStat (s : FileStat) : FuseAttr where
  ino := s.ino
  size := s.size
  blocks := s.blocks
  atime := s.atime
  mtime := s.mtime
  ctime := s.ctime
  atimensec := s.atimensec.toUInt32
  mtimensec := s.mtimensec.toUInt32
  ctimensec := s.ctimensec.toUInt32
  mode := s.mode
  nlink := s.nlink.toUInt32
  uid := s.uid
  gid := s.gid
  rdev := s.rdev.toUInt32
  blksize := s.blksize.toUInt32
  flags := 0

def direntType (mode : UInt32) : UInt32 := (mode &&& 0o170000) >>> 12

def fuseDirent (name : List UInt8) (s : FileStat) (off : UInt64) : FuseDirent :=
  ⟨s.ino, off, .ofNat name.length, direntType s.mode⟩

def fuseDirentPlus (name : List UInt8) (s : FileStat) (off : UInt64) : FuseDirentPlus :=
  ⟨⟨s.ino, 0, 1, 1, 0, 0, convertStat s⟩, fuseDirent name s off⟩

def nameMax : ℕ := 255

def nullTerminatedName (name : List UInt8) : Option (List UInt8) :=
  if name.length ≤ nameMax then some (name.takeWhile fun b => b ≠ 0) else none

def Packet.setPayloadSize (p : Packet) (size : ℕ) : Packet :=
  p.withPayload (p.payload.take size ++ List.replicate (size - p.payload.length) 0)

structure DirectoryEntryWriter where
  packets : List Packet
  packet : ℕ
  offset : ℕ
  deriving DecidableEq, Repr

namespace DirectoryEntryWriter

def create (packets : List Packet) : DirectoryEntryWriter := ⟨packets, 0, 0⟩

def setPayloadSize (w : DirectoryEntryWriter) : DirectoryEntryWriter :=
  { w with packets := w.packets.modify w.packet fun p => p.setPayloadSize w.offset }

def getNextPacket (w : DirectoryEntryWriter) : Option DirectoryEntryWriter :=
  if w.packet + 1 < w.packets.length then
    some { w.setPayloadSize with packet := w.packet + 1, offset := 0 }
  else none

def copy (w : DirectoryEntryWriter) (entry : List UInt8) : DirectoryEntryWriter :=
  { w with packets := w.packets.modify w.packet fun p => p.withPayload (overwrite p.payload w.offset entry)
           offset := w.offset + entry.length }

def addEntry (w : DirectoryEntryWriter) (entry : List UInt8) : Option (ℕ × DirectoryEntryWriter) :=
  (w.packets[w.packet]?).bind fun p =>
    if p.payload.length - w.offset < entry.length then
      w.setPayloadSize.getNextPacket.bind fun w =>
        (w.packets[w.packet]?).bind fun q =>
          if entry.length ≤ q.payload.length then some (entry.length, w.copy entry) else none
    else some (entry.length, w.copy entry)

def addDirectoryEntry (w : DirectoryEntryWriter) (name : List UInt8) (inode : UInt64) (mode : UInt32)
    (off : UInt64) : Option (ℕ × DirectoryEntryWriter) :=
  (nullTerminatedName name).bind fun name =>
    w.addEntry (FuseDirent.layout.record (fuseDirent name { FileStat.zero with ino := inode, mode := mode } off, name))

def getEntryPlusSize (name : List UInt8) : Option ℕ :=
  (nullTerminatedName name).map fun name => FuseDirentPlus.layout.recordSize name.length

def addDirectoryEntryPlus (w : DirectoryEntryWriter) (name : List UInt8) (s : FileStat) (off : UInt64) :
    Option (ℕ × DirectoryEntryWriter) :=
  (nullTerminatedName name).bind fun name =>
    w.addEntry (FuseDirentPlus.layout.record (fuseDirentPlus name s off, name))

def getWritedPackets (w : DirectoryEntryWriter) : Option (List Packet × DirectoryEntryWriter) :=
  w.getNextPacket.map fun w =>
    (w.packets.take w.packet, { w with packets := w.packets.drop w.packet, packet := 0 })

def getPackets (w : DirectoryEntryWriter) : List Packet := w.setPayloadSize.packets

structure Filled (w : DirectoryEntryWriter) (done : List (List (List UInt8))) (current : List (List UInt8))
    (front : List Packet) (p : Packet) (rest : List Packet) : Prop where
  packets : w.packets = front ++ p :: rest
  packet : w.packet = front.length
  front : front.map Packet.payload = done.map List.flatten
  written : p.payload.take w.offset = current.flatten
  offset : w.offset = current.flatten.length
  offset_le : w.offset ≤ p.payload.length

lemma payload_setPayloadSize {p : Packet} {size : ℕ} (h : size ≤ p.payload.length) :
    (p.setPayloadSize size).payload = p.payload.take size := by
  rw [Packet.setPayloadSize, Nat.sub_eq_zero_of_le h, List.replicate_zero, List.append_nil, Packet.withPayload_payload]

lemma length_setPayloadSize (p : Packet) (size : ℕ) : (p.setPayloadSize size).payload.length = size := by
  rw [Packet.setPayloadSize, Packet.withPayload_payload, List.length_append, List.length_take, List.length_replicate]
  omega

lemma setPayloadSize_idem (p : Packet) (size : ℕ) :
    (p.setPayloadSize size).setPayloadSize size = p.setPayloadSize size := by
  have hlen := length_setPayloadSize p size
  rw [Packet.setPayloadSize, hlen, Nat.sub_self, List.replicate_zero, List.append_nil,
    List.take_of_length_le hlen.le]
  rfl

lemma filled_create (p : Packet) (rest : List Packet) : (create (p :: rest)).Filled [] [] [] p rest :=
  ⟨rfl, rfl, rfl, rfl, rfl, Nat.zero_le _⟩

def sizes (packets : List Packet) : List ℕ := packets.map fun p => p.payload.length

variable {w : DirectoryEntryWriter} {done : List (List (List UInt8))} {current : List (List UInt8)}
  {front : List Packet} {p : Packet} {rest : List Packet}

lemma Filled.get (h : w.Filled done current front p rest) : w.packets[w.packet]? = some p := by
  rw [h.packets, h.packet, List.getElem?_append_right le_rfl, Nat.sub_self, List.getElem?_cons_zero]

lemma Filled.setPayloadSize (h : w.Filled done current front p rest) :
    w.setPayloadSize = ⟨front ++ p.setPayloadSize w.offset :: rest, front.length, w.offset⟩ := by
  rw [DirectoryEntryWriter.setPayloadSize, h.packets, h.packet, modify_middle]

lemma Filled.getNextPacket (h : w.Filled done current front p rest) :
    w.getNextPacket = match rest with
      | [] => none
      | q :: qs => some ⟨front ++ p.setPayloadSize w.offset :: q :: qs, front.length + 1, 0⟩ := by
  rw [DirectoryEntryWriter.getNextPacket, h.setPayloadSize, h.packets, h.packet]
  cases rest with
  | nil => rw [if_neg (by simp)]
  | cons q qs => rw [if_pos (by simp)]

lemma Filled.getNextPacket_setPayloadSize (h : w.Filled done current front p rest) :
    w.setPayloadSize.getNextPacket = w.getNextPacket := by
  rw [h.getNextPacket, DirectoryEntryWriter.getNextPacket, h.setPayloadSize, DirectoryEntryWriter.setPayloadSize]
  dsimp only
  rw [modify_middle, setPayloadSize_idem]
  cases rest with
  | nil => rw [if_neg (by simp)]
  | cons q qs => rw [if_pos (by simp)]

lemma Filled.payload_written (h : w.Filled done current front p rest) :
    (front ++ [p.setPayloadSize w.offset]).map Packet.payload = (done ++ [current]).map List.flatten := by
  rw [List.map_append, List.map_append, h.front, List.map_singleton, List.map_singleton,
    payload_setPayloadSize h.offset_le, h.written]

lemma Filled.next {q : Packet} {qs : List Packet} (h : w.Filled done current front p (q :: qs)) :
    Filled ⟨front ++ p.setPayloadSize w.offset :: q :: qs, front.length + 1, 0⟩ (done ++ [current]) []
      (front ++ [p.setPayloadSize w.offset]) q qs :=
  ⟨by simp, by simp, h.payload_written, rfl, rfl, Nat.zero_le _⟩

lemma Filled.copy (h : w.Filled done current front p rest) {entry : List UInt8}
    (hfit : w.offset + entry.length ≤ p.payload.length) :
    (w.copy entry).Filled done (current ++ [entry]) front
      (p.withPayload (overwrite p.payload w.offset entry)) rest := by
  have hflat : (current ++ [entry]).flatten = current.flatten ++ entry := by simp
  have htake : (p.payload.take w.offset ++ entry).length = w.offset + entry.length := by
    rw [h.written, List.length_append, h.offset]
  refine ⟨?_, h.packet, h.front, ?_, ?_, ?_⟩
  · dsimp only [DirectoryEntryWriter.copy]
    rw [h.packets, h.packet, modify_middle]
  · rw [Packet.withPayload_payload, hflat, ← h.written]
    exact List.take_left' htake
  · rw [hflat, List.length_append, ← h.offset]
    rfl
  · rwa [Packet.withPayload_payload, overwrite_length hfit]

lemma sizes_copy {entry : List UInt8} {offset : ℕ} (hfit : offset + entry.length ≤ p.payload.length) :
    sizes (p.withPayload (overwrite p.payload offset entry) :: rest) = sizes (p :: rest) := by
  simp only [sizes, List.map_cons, Packet.withPayload_payload, overwrite_length hfit]

lemma room_copy {entry : List UInt8} (hfit : w.offset + entry.length ≤ p.payload.length) :
    (p.withPayload (overwrite p.payload w.offset entry)).payload.length - (w.copy entry).offset =
      p.payload.length - w.offset - entry.length := by
  rw [Packet.withPayload_payload, overwrite_length hfit, Nat.sub_sub]
  rfl

lemma Filled.addEntry_eq (h : w.Filled done current front p rest) (entry : List UInt8) :
    w.addEntry entry =
      if p.payload.length - w.offset < entry.length then
        match rest with
        | [] => none
        | q :: qs =>
          if entry.length ≤ q.payload.length then
            some (entry.length,
              DirectoryEntryWriter.copy ⟨front ++ p.setPayloadSize w.offset :: q :: qs, front.length + 1, 0⟩ entry)
          else none
      else some (entry.length, w.copy entry) := by
  rw [DirectoryEntryWriter.addEntry, h.get, Option.bind_some, h.getNextPacket_setPayloadSize, h.getNextPacket]
  cases rest with
  | nil => rfl
  | cons q qs =>
    dsimp only
    rw [Option.bind_some, h.next.get, Option.bind_some]

lemma Filled.addEntry (h : w.Filled done current front p rest) {entry : List UInt8} {r : ℕ × DirectoryEntryWriter}
    (hr : w.addEntry entry = some r) :
    r.1 = entry.length ∧ ∃ done' current' front' p' rest', r.2.Filled done' current' front' p' rest' ∧
      sizes (p' :: rest') <:+ sizes (p :: rest) ∧ rest.length ≤ rest'.length + 1 ∧
      (done' ++ [current']).flatten = (done ++ [current]).flatten ++ [entry] := by
  rw [h.addEntry_eq] at hr
  split_ifs at hr with hroom
  · cases rest with
    | nil => cases hr
    | cons q qs =>
      dsimp only at hr
      split_ifs at hr with hq
      cases hr
      have hfit : 0 + entry.length ≤ q.payload.length := by omega
      refine ⟨rfl, done ++ [current], [entry], _, _, _, h.next.copy hfit, ?_, le_rfl, by simp⟩
      rw [sizes_copy hfit]
      exact List.suffix_cons _ _
  · cases hr
    have hfit : w.offset + entry.length ≤ p.payload.length := by
      have hle := h.offset_le
      omega
    refine ⟨rfl, done, current ++ [entry], _, _, _, h.copy hfit, ?_, Nat.le_succ _, by simp⟩
    rw [sizes_copy hfit]

lemma fst_of_addEntry {entry : List UInt8} {r : ℕ × DirectoryEntryWriter} (h : w.addEntry entry = some r) :
    r.1 = entry.length := by
  rw [DirectoryEntryWriter.addEntry, Option.bind_eq_some_iff] at h
  obtain ⟨p, -, h⟩ := h
  split_ifs at h
  · obtain ⟨v, -, h⟩ := Option.bind_eq_some_iff.mp h
    obtain ⟨q, -, h⟩ := Option.bind_eq_some_iff.mp h
    split_ifs at h
    cases h
    rfl
  · cases h
    rfl

lemma Filled.getWritedPackets (h : w.Filled done current front p rest) (hrest : rest ≠ []) :
    w.getWritedPackets = some (front ++ [p.setPayloadSize w.offset], ⟨rest, 0, 0⟩) := by
  obtain ⟨q, qs, rfl⟩ := List.exists_cons_of_ne_nil hrest
  have hlen : (front ++ [p.setPayloadSize w.offset]).length = front.length + 1 := by simp
  have hsplit : front ++ p.setPayloadSize w.offset :: q :: qs = front ++ [p.setPayloadSize w.offset] ++ q :: qs := by
    simp
  rw [DirectoryEntryWriter.getWritedPackets, h.getNextPacket, Option.map_some]
  dsimp only
  rw [hsplit, ← hlen, List.take_left, List.drop_left]

lemma Filled.rest_ne_nil (h : w.Filled done current front p rest) {r : List Packet × DirectoryEntryWriter}
    (hr : w.getWritedPackets = some r) : rest ≠ [] := by
  rintro rfl
  rw [DirectoryEntryWriter.getWritedPackets, h.getNextPacket] at hr
  cases hr

def addEntries (w : DirectoryEntryWriter) (entries : List (List UInt8)) : Option DirectoryEntryWriter :=
  entries.foldlM (fun w entry => (w.addEntry entry).map Prod.snd) w

lemma addEntries_cons (w : DirectoryEntryWriter) (entry : List UInt8) (entries : List (List UInt8)) :
    w.addEntries (entry :: entries) = (w.addEntry entry).bind fun r => r.2.addEntries entries := by
  rw [addEntries, List.foldlM_cons, Option.bind_eq_bind, Option.bind_map]
  rfl

lemma foldlM_eq_addEntries {α : Type*} {add : DirectoryEntryWriter → α → Option DirectoryEntryWriter}
    {bytes : α → List UInt8} {entries : List α}
    (h : ∀ e ∈ entries, ∀ w, add w e = (w.addEntry (bytes e)).map Prod.snd) (w : DirectoryEntryWriter) :
    entries.foldlM add w = w.addEntries (entries.map bytes) := by
  induction entries generalizing w with
  | nil => rfl
  | cons e entries ih =>
    rw [List.foldlM_cons, h e List.mem_cons_self, List.map_cons, addEntries_cons, Option.bind_eq_bind, Option.bind_map]
    congr 1
    funext r
    apply ih
    exact fun e' he' => h e' (List.mem_cons_of_mem e he')

lemma Filled.addEntries {entries : List (List UInt8)} (h : w.Filled done current front p rest)
    {v : DirectoryEntryWriter} (hv : w.addEntries entries = some v) :
    ∃ done' current' front' p' rest', v.Filled done' current' front' p' rest' ∧
      sizes (p' :: rest') <:+ sizes (p :: rest) ∧ rest.length ≤ rest'.length + entries.length ∧
      (done' ++ [current']).flatten = (done ++ [current]).flatten ++ entries := by
  induction entries generalizing w done current front p rest with
  | nil =>
    cases hv
    exact ⟨_, _, _, _, _, h, List.suffix_rfl, le_rfl, (List.append_nil _).symm⟩
  | cons entry entries ih =>
    rw [addEntries_cons, Option.bind_eq_some_iff] at hv
    obtain ⟨r, hr, hv⟩ := hv
    obtain ⟨-, done₁, current₁, front₁, p₁, rest₁, h₁, hsizes₁, hlen₁, hflat₁⟩ := h.addEntry hr
    obtain ⟨done₂, current₂, front₂, p₂, rest₂, h₂, hsizes₂, hlen₂, hflat₂⟩ := ih h₁ hv
    refine ⟨done₂, current₂, front₂, p₂, rest₂, h₂, hsizes₂.trans hsizes₁, ?_, ?_⟩
    · rw [List.length_cons]
      omega
    · rw [hflat₂, hflat₁, List.append_assoc, List.singleton_append]

lemma Filled.addEntries_isSome {entries : List (List UInt8)} (h : w.Filled done current front p rest)
    (hfull : ∀ n ∈ sizes (p :: rest), n = maxPayloadSize)
    (hentries : ∀ entry ∈ entries, entry.length ≤ maxPayloadSize) (hrest : entries.length ≤ rest.length) :
    (w.addEntries entries).isSome := by
  induction entries generalizing w done current front p rest with
  | nil => rfl
  | cons entry entries ih =>
    have hsome : (w.addEntry entry).isSome := by
      rw [h.addEntry_eq]
      split_ifs
      · obtain ⟨q, qs, rfl⟩ := List.exists_cons_of_length_pos (Nat.lt_of_lt_of_le (by simp) hrest)
        have hq : q.payload.length = maxPayloadSize := hfull _ (by simp [sizes])
        dsimp only
        rw [if_pos (hq ▸ hentries entry List.mem_cons_self)]
        rfl
      · rfl
    obtain ⟨r, hr⟩ := Option.isSome_iff_exists.mp hsome
    obtain ⟨-, done₁, current₁, front₁, p₁, rest₁, h₁, hsizes₁, hlen₁, -⟩ := h.addEntry hr
    rw [List.length_cons] at hrest
    rw [addEntries_cons, hr, Option.bind_some]
    exact ih h₁ (fun n hn => hfull n (hsizes₁.subset hn)) (fun e he => hentries e (List.mem_cons_of_mem entry he))
      (by omega)

variable {packets written : List Packet} {entries : List (List UInt8)} {v : DirectoryEntryWriter}

lemma ne_nil_of_getWritedPackets (hw : (create packets).addEntries entries = some w)
    (hv : w.getWritedPackets = some (written, v)) : packets ≠ [] := by
  rintro rfl
  cases entries with
  | nil =>
    cases hw
    cases hv
  | cons entry entries => cases hw

theorem getWritedPackets_addEntries (hw : (create packets).addEntries entries = some w)
    (hv : w.getWritedPackets = some (written, v)) :
    (∃ cut : List (List (List UInt8)), cut.flatten = entries ∧ written.map Packet.payload = cut.map List.flatten) ∧
      v.packet = 0 ∧ v.offset = 0 ∧ v.packets ≠ [] ∧ sizes v.packets <:+ sizes packets := by
  obtain ⟨q, qs, rfl⟩ := List.exists_cons_of_ne_nil (ne_nil_of_getWritedPackets hw hv)
  obtain ⟨done, current, front, p, rest, h, hsizes, -, hflat⟩ := (filled_create q qs).addEntries hw
  have hne := h.rest_ne_nil hv
  rw [h.getWritedPackets hne] at hv
  cases hv
  exact ⟨⟨done ++ [current], hflat, h.payload_written⟩, rfl, rfl, hne, (List.suffix_cons _ _).trans hsizes⟩

theorem getWritedPackets_isSome (hfull : ∀ q ∈ packets, q.payload.length = maxPayloadSize)
    (hentries : ∀ entry ∈ entries, entry.length ≤ maxPayloadSize) (hlen : entries.length + 1 < packets.length) :
    ∃ w, (create packets).addEntries entries = some w ∧ w.getWritedPackets.isSome := by
  obtain ⟨q, qs, rfl⟩ := List.exists_cons_of_length_pos (Nat.zero_lt_of_lt hlen)
  rw [List.length_cons] at hlen
  have hsizes : ∀ n ∈ sizes (q :: qs), n = maxPayloadSize := by
    intro n hn
    obtain ⟨p, hp, rfl⟩ := List.mem_map.mp hn
    exact hfull p hp
  obtain ⟨w, hw⟩ := Option.isSome_iff_exists.mp
    ((filled_create q qs).addEntries_isSome hsizes hentries (by omega))
  obtain ⟨done, current, front, p, rest, h, -, hlen', -⟩ := (filled_create q qs).addEntries hw
  refine ⟨w, hw, ?_⟩
  rw [h.getWritedPackets (List.ne_nil_of_length_pos (by omega))]
  rfl

lemma Filled.fitsBeforeLast_iff (h : w.Filled done current front p rest) (entries : List (List UInt8)) :
    FitsBeforeLast ((p.payload.length - w.offset) :: sizes rest) (entries.map List.length) ↔
      ∃ v, w.addEntries entries = some v ∧ v.getWritedPackets.isSome := by
  induction entries generalizing w done current front p rest with
  | nil =>
    rw [List.map_nil, fitsBeforeLast_nil, Ne, sizes, List.map_eq_nil_iff]
    constructor
    · intro hne
      exact ⟨w, rfl, by rw [h.getWritedPackets hne]; rfl⟩
    · rintro ⟨v, hv, hsome⟩
      cases hv
      obtain ⟨r, hr⟩ := Option.isSome_iff_exists.mp hsome
      exact h.rest_ne_nil hr
  | cons entry entries ih =>
    have hle := h.offset_le
    rw [List.map_cons, addEntries_cons, h.addEntry_eq]
    by_cases hroom : p.payload.length - w.offset < entry.length
    · rw [if_pos hroom, fitsBeforeLast_cons_of_lt hroom]
      cases rest with
      | nil => simp [sizes]
      | cons q qs =>
        dsimp only
        by_cases hentry : entry.length ≤ q.payload.length
        · have hfit : 0 + entry.length ≤ q.payload.length := by omega
          have hnext := ih (h.next.copy hfit)
          rw [room_copy hfit, Nat.sub_zero] at hnext
          simp [sizes, hentry, ← hnext]
        · simp [sizes, hentry]
    · have hfit : w.offset + entry.length ≤ p.payload.length := by omega
      rw [if_neg hroom, Option.bind_some, ← ih (h.copy hfit), fitsBeforeLast_cons_of_le (not_lt.mp hroom), room_copy hfit]

/-- With some of the entries put in, the writer goes on to a packet that is not there: for the next entry, or in
`GetWritedPackets`. -/
def RunsOut (w : DirectoryEntryWriter) (entries : List (List UInt8)) : Prop :=
  ∃ before after v, entries = before ++ after ∧ w.addEntries before = some v ∧ v.getNextPacket = none ∧
    ∀ entry ∈ after.head?, ∀ p ∈ v.packets[v.packet]?, p.payload.length - v.offset < entry.length

lemma runsOut_nil : w.RunsOut [] ↔ w.getNextPacket = none := by
  constructor
  · rintro ⟨before, after, v, heq, hv, hnext, -⟩
    rw [(List.append_eq_nil_iff.mp heq.symm).1] at hv
    cases hv
    exact hnext
  · exact fun hnext => ⟨[], [], w, rfl, rfl, hnext, fun entry he => by cases he⟩

lemma Filled.runsOut_cons (h : w.Filled done current front p rest) (entry : List UInt8) (entries : List (List UInt8)) :
    w.RunsOut (entry :: entries) ↔ (rest = [] ∧ p.payload.length - w.offset < entry.length) ∨
      ∃ r, w.addEntry entry = some r ∧ r.2.RunsOut entries := by
  have hnone : w.getNextPacket = none ↔ rest = [] := by
    rw [h.getNextPacket]
    cases rest <;> simp
  constructor
  · rintro ⟨before, after, v, heq, hv, hnext, hroom⟩
    cases before with
    | nil =>
      cases hv
      rw [List.nil_append] at heq
      subst heq
      exact Or.inl ⟨hnone.mp hnext, hroom entry rfl p h.get⟩
    | cons first before =>
      cases heq
      rw [addEntries_cons] at hv
      obtain ⟨r, hr, hv⟩ := Option.bind_eq_some_iff.mp hv
      exact Or.inr ⟨r, hr, before, after, v, rfl, hv, hnext, hroom⟩
  · rintro (⟨hnil, hroom⟩ | ⟨r, hr, before, after, v, rfl, hv, hnext, hroom⟩)
    · refine ⟨[], entry :: entries, w, rfl, rfl, hnone.mpr hnil, fun e he q hq => ?_⟩
      cases he
      rw [h.get] at hq
      cases hq
      exact hroom
    · refine ⟨entry :: before, after, v, rfl, ?_, hnext, hroom⟩
      rw [addEntries_cons, hr, Option.bind_some, hv]

lemma Filled.runsOut_iff (h : w.Filled done current front p rest) (entries : List (List UInt8)) :
    w.RunsOut entries ↔ TakesAll ((p.payload.length - w.offset) :: sizes rest) (entries.map List.length) := by
  induction entries generalizing w done current front p rest with
  | nil =>
    rw [runsOut_nil, h.getNextPacket]
    cases rest with
    | nil => exact iff_of_true rfl (takesAll_singleton _ _)
    | cons q qs => exact iff_of_false (Option.some_ne_none _) takesAll_cons_nil
  | cons entry entries ih =>
    have hle := h.offset_le
    rw [h.runsOut_cons, h.addEntry_eq, List.map_cons]
    by_cases hroom : p.payload.length - w.offset < entry.length
    · rw [if_pos hroom]
      cases rest with
      | nil => exact iff_of_true (Or.inl ⟨rfl, hroom⟩) (takesAll_singleton _ _)
      | cons q qs =>
        rw [sizes, List.map_cons, takesAll_cons_of_lt hroom]
        dsimp only
        by_cases hentry : entry.length ≤ q.payload.length
        · have hfit : 0 + entry.length ≤ q.payload.length := by omega
          have hnext := ih (h.next.copy hfit)
          rw [room_copy hfit, Nat.sub_zero] at hnext
          simp [hentry, hnext, sizes]
        · simp [hentry]
    · have hfit : w.offset + entry.length ≤ p.payload.length := by omega
      have hcopy := ih (h.copy hfit)
      rw [room_copy hfit] at hcopy
      rw [if_neg hroom]
      cases rest with
      | nil => exact iff_of_true (Or.inr ⟨_, rfl, hcopy.mpr (takesAll_singleton _ _)⟩) (takesAll_singleton _ _)
      | cons q qs =>
        rw [sizes, List.map_cons, takesAll_cons_of_le (not_lt.mp hroom)]
        simp [hroom, hcopy, sizes]

lemma sizes_of_full {n : ℕ} (hlen : packets.length = n) (hfull : ∀ p ∈ packets, p.payload.length = maxPayloadSize) :
    sizes packets = List.replicate n maxPayloadSize := by
  rw [sizes, List.map_congr_left hfull, List.map_const', hlen]

/-- The last packet is never written, since `GetWritedPackets` goes one further than the entries do. -/
lemma addEntries_isSome_iff (hne : packets ≠ []) (entries : List (List UInt8)) :
    (∃ w, (create packets).addEntries entries = some w ∧ w.getWritedPackets.isSome) ↔
      FitsBeforeLast (sizes packets) (entries.map List.length) := by
  obtain ⟨p, rest, rfl⟩ := List.exists_cons_of_ne_nil hne
  exact ((filled_create p rest).fitsBeforeLast_iff entries).symm

lemma runsOut_create_iff (hne : packets ≠ []) (entries : List (List UInt8)) :
    (create packets).RunsOut entries ↔ TakesAll (sizes packets) (entries.map List.length) := by
  obtain ⟨p, rest, rfl⟩ := List.exists_cons_of_ne_nil hne
  exact (filled_create p rest).runsOut_iff entries

lemma isSome_bind_getWritedPackets {β : Type*} {w : Option DirectoryEntryWriter}
    (f : List Packet × DirectoryEntryWriter → β) :
    (w.bind fun w => w.getWritedPackets.map f).isSome ↔ ∃ v, w = some v ∧ v.getWritedPackets.isSome := by
  cases w with
  | none =>
    constructor
    · intro h
      cases h
    · rintro ⟨v, hv, -⟩
      cases hv
  | some v =>
    rw [Option.bind_some, Option.isSome_map]
    exact ⟨fun h => ⟨v, rfl, h⟩, fun ⟨v', hv, h⟩ => Option.some.inj hv ▸ h⟩

end DirectoryEntryWriter

end FastTransport.Protocol
