import FastTransport.Protocol.DirectoryEntryWriter

/-! Entries of `readdirplus` on their way: written by the server, walked over and patched by the client. -/

namespace FastTransport.TaskQueue

open Protocol Lib.Records

structure ClientChild where
  name : List UInt8
  address : UInt64
  directory : Bool
  size : UInt64
  serverInode : UInt64
  nlookup : ℕ
  deriving DecidableEq, Repr

structure ClientDirectory where
  inode : UInt64
  parent : Option UInt64
  children : List ClientChild
  deriving DecidableEq, Repr

namespace ClientDirectory

def fuseRootId : UInt64 := 1

def isDirectory (mode : UInt32) : Bool := mode &&& 0o170000 = 0o040000

def insert (d : ClientDirectory) (child : ClientChild) : ClientDirectory :=
  { d with children :=
      d.children.takeWhile (fun c => c.name < child.name) ++
        child :: d.children.dropWhile fun c => c.name < child.name }

def addRef (d : ClientDirectory) (name : List UInt8) : ClientDirectory :=
  { d with children :=
      d.children.map fun c => if c.name = name then { c with nlookup := c.nlookup + 1 } else c }

/-- `ResolveClientInode`; `allocate` says where a new leaf is put. -/
def resolveClientInode (allocate : ClientDirectory → UInt64) (d : ClientDirectory) (entry : FuseDirentPlus)
    (name : List UInt8) : UInt64 × ClientDirectory :=
  if name = [46] then (d.inode, d)
  else if name = [46, 46] then (d.parent.getD fuseRootId, d)
  else
    match d.children.find? fun c => c.name = name with
    | some child => (child.address, d.addRef name)
    | none =>
      let child : ClientChild :=
        ⟨name, allocate d, isDirectory entry.entryOut.attr.mode, entry.entryOut.attr.size, entry.entryOut.nodeid, 0⟩
      (child.address, (d.insert child).addRef name)

def patchEntry (entry : FuseDirentPlus) (inode : UInt64) : FuseDirentPlus :=
  { entryOut := { entry.entryOut with nodeid := inode, attr := { entry.entryOut.attr with ino := inode } }
    dirent := { entry.dirent with ino := inode } }

def patchInodes (allocate : ClientDirectory → UInt64) (d : ClientDirectory) (entry : FuseDirentPlus)
    (name : List UInt8) : FuseDirentPlus × ClientDirectory :=
  let resolved := resolveClientInode allocate d entry name
  (patchEntry entry resolved.1, resolved.2)

def populateTreeAndPatchInodes (allocate : ClientDirectory → UInt64) (d : ClientDirectory) (payload : List UInt8) :
    Walk ClientDirectory FuseDirentPlus :=
  FuseDirentPlus.layout.walk (patchInodes allocate) d payload

def populate (allocate : ClientDirectory → UInt64) :
    ClientDirectory → List Packet → List (Walk ClientDirectory FuseDirentPlus)
  | _, [] => []
  | d, packet :: packets =>
    let walk := populateTreeAndPatchInodes allocate d packet.payload
    walk :: populate allocate walk.state packets

end ClientDirectory

structure PlusEntry where
  name : List UInt8
  stat : FileStat
  off : UInt64
  deriving DecidableEq, Repr

def ValidName (name : List UInt8) : Prop := name ≠ [] ∧ name.length ≤ nameMax ∧ 0 ∉ name

instance (name : List UInt8) : Decidable (ValidName name) := inferInstanceAs (Decidable (_ ∧ _))

namespace PlusEntry

def wire (e : PlusEntry) : FuseDirentPlus × List UInt8 := (fuseDirentPlus e.name e.stat e.off, e.name)

def bytes (e : PlusEntry) : List UInt8 := FuseDirentPlus.layout.record e.wire

def add (w : DirectoryEntryWriter) (e : PlusEntry) : Option DirectoryEntryWriter :=
  (w.addDirectoryEntryPlus e.name e.stat e.off).map Prod.snd

end PlusEntry

lemma nullTerminatedName_eq {name : List UInt8} (h : ValidName name) : nullTerminatedName name = some name := by
  have hzero : name.takeWhile (fun b => b ≠ 0) = name :=
    List.takeWhile_eq_self_iff.mpr fun b hb => decide_eq_true fun h0 => h.2.2 (h0 ▸ hb)
  rw [nullTerminatedName, if_pos h.2.1, hzero]

lemma recordSize_le {name : List UInt8} (h : ValidName name) :
    FuseDirentPlus.layout.recordSize name.length ≤ maxPayloadSize := by
  have hle := align_le (FuseDirentPlus.layout.headerSize + name.length)
  have hsize : FuseDirentPlus.layout.headerSize = 152 := rfl
  have hmax := h.2.1
  rw [nameMax] at hmax
  rw [Layout.recordSize, maxPayloadSize]
  omega

lemma length_bytes_le {e : PlusEntry} (h : ValidName e.name) : e.bytes.length ≤ maxPayloadSize := by
  rw [PlusEntry.bytes, Layout.length_record]
  exact recordSize_le h

lemma valid_wire {e : PlusEntry} (h : ValidName e.name) : FuseDirentPlus.layout.Valid e.wire := by
  refine ⟨?_, h.1⟩
  have hmax := h.2.1
  have hlen : (UInt32.ofNat e.name.length).toNat = e.name.length :=
    UInt32.toNat_ofNat_of_lt' (hmax.trans_lt (by decide))
  exact hlen

lemma add_eq {e : PlusEntry} (h : ValidName e.name) (w : DirectoryEntryWriter) :
    PlusEntry.add w e = (w.addEntry e.bytes).map Prod.snd := by
  rw [PlusEntry.add, DirectoryEntryWriter.addDirectoryEntryPlus, nullTerminatedName_eq h]
  rfl

lemma foldlM_add {entries : List PlusEntry} (h : ∀ e ∈ entries, ValidName e.name) (w : DirectoryEntryWriter) :
    entries.foldlM PlusEntry.add w = w.addEntries (entries.map PlusEntry.bytes) :=
  DirectoryEntryWriter.foldlM_eq_addEntries (fun e he => add_eq (h e he)) w

lemma exists_cut {α β : Type*} (f : α → β) {cut : List (List β)} {l : List α} (h : cut.flatten = l.map f) :
    ∃ cut' : List (List α), cut'.flatten = l ∧ cut = cut'.map (List.map f) := by
  induction cut generalizing l with
  | nil => exact ⟨[], (List.map_eq_nil_iff.mp h.symm).symm, rfl⟩
  | cons piece cut ih =>
    rw [List.flatten_cons] at h
    obtain ⟨l₁, l₂, rfl, rfl, hrest⟩ := List.map_eq_append_iff.mp h.symm
    obtain ⟨cut', rfl, rfl⟩ := ih hrest.symm
    exact ⟨l₁ :: cut', rfl, rfl⟩

lemma exists_cut_records {α H : Type*} {L : Layout H} (wire : α → H × List UInt8) {packets written : List Packet}
    {entries : List α} {w v : DirectoryEntryWriter}
    (hw : (DirectoryEntryWriter.create packets).addEntries (entries.map fun e => L.record (wire e)) = some w)
    (hv : w.getWritedPackets = some (written, v)) :
    ∃ cut : List (List α), cut.flatten = entries ∧
      written.map Packet.payload = cut.map fun entries => L.records (entries.map wire) := by
  obtain ⟨⟨pieces, hpieces, hpayload⟩, -⟩ := DirectoryEntryWriter.getWritedPackets_addEntries hw hv
  obtain ⟨cut, rfl, rfl⟩ := exists_cut (fun e => L.record (wire e)) hpieces
  refine ⟨cut, rfl, hpayload.trans ?_⟩
  rw [List.map_map]
  refine List.map_congr_left fun es _ => ?_
  simp only [Function.comp_apply, Layout.records, List.flatMap, List.map_map]
  rfl

def Patched (before after : FuseDirentPlus × List UInt8) : Prop :=
  ∃ inode, after = (ClientDirectory.patchEntry before.1 inode, before.2)

lemma patchAll_patched (allocate : ClientDirectory → UInt64) (d : ClientDirectory)
    (rs : List (FuseDirentPlus × List UInt8)) :
    List.Forall₂ Patched rs (Layout.patchAll (ClientDirectory.patchInodes allocate) d rs).1 := by
  induction rs generalizing d with
  | nil => exact .nil
  | cons r rs ih => exact .cons ⟨_, rfl⟩ (ih _)

structure Walked (entries : List PlusEntry) (walk : Walk ClientDirectory FuseDirentPlus) : Prop where
  visited : walk.visited = entries.map PlusEntry.wire
  pos : walk.pos = walk.bytes.length
  patched : ∃ rs, List.Forall₂ Patched (entries.map PlusEntry.wire) rs ∧
    walk.bytes = FuseDirentPlus.layout.records rs

lemma length_records_patched {rs rs' : List (FuseDirentPlus × List UInt8)} (h : List.Forall₂ Patched rs rs') :
    (FuseDirentPlus.layout.records rs').length = (FuseDirentPlus.layout.records rs).length := by
  induction h with
  | nil => rfl
  | @cons r r' rs rs' hr _ ih =>
    obtain ⟨inode, rfl⟩ := hr
    rw [Layout.records, Layout.records, List.flatMap_cons, List.flatMap_cons, List.length_append, List.length_append,
      Layout.length_record, Layout.length_record]
    exact congrArg _ ih

lemma walked_populateTreeAndPatchInodes (allocate : ClientDirectory → UInt64) (d : ClientDirectory)
    {entries : List PlusEntry} (h : ∀ e ∈ entries, ValidName e.name) :
    Walked entries (d.populateTreeAndPatchInodes allocate
      (FuseDirentPlus.layout.records (entries.map PlusEntry.wire))) := by
  have hvalid : ∀ r ∈ entries.map PlusEntry.wire, FuseDirentPlus.layout.Valid r := by
    intro r hr
    obtain ⟨e, he, rfl⟩ := List.mem_map.mp hr
    exact valid_wire (h e he)
  have hpatched := patchAll_patched allocate d (entries.map PlusEntry.wire)
  rw [ClientDirectory.populateTreeAndPatchInodes, Layout.walk_records _ _ hvalid]
  exact ⟨rfl, (length_records_patched hpatched).symm, _, hpatched, rfl⟩

lemma walked_populate (allocate : ClientDirectory → UInt64) {packets : List Packet} {cut : List (List PlusEntry)}
    (d : ClientDirectory) (h : ∀ entries ∈ cut, ∀ e ∈ entries, ValidName e.name)
    (hpackets : packets.map Packet.payload =
      cut.map fun entries => FuseDirentPlus.layout.records (entries.map PlusEntry.wire)) :
    List.Forall₂ Walked cut (d.populate allocate packets) := by
  induction cut generalizing d packets with
  | nil =>
    rw [List.map_nil, List.map_eq_nil_iff] at hpackets
    rw [hpackets]
    exact .nil
  | cons entries cut ih =>
    obtain ⟨packet, packets, rfl⟩ := List.exists_cons_of_ne_nil (l := packets) (by rintro rfl; cases hpackets)
    rw [List.map_cons, List.map_cons, List.cons.injEq] at hpackets
    have hwalked := walked_populateTreeAndPatchInodes allocate d (h entries List.mem_cons_self)
    rw [← hpackets.1] at hwalked
    exact .cons hwalked (ih _ (fun es hes => h es (List.mem_cons_of_mem entries hes)) hpackets.2)

lemma exists_cut_entries {packets written : List Packet} {entries : List PlusEntry} {w v : DirectoryEntryWriter}
    (hnames : ∀ e ∈ entries, ValidName e.name)
    (hw : entries.foldlM PlusEntry.add (.create packets) = some w) (hv : w.getWritedPackets = some (written, v)) :
    ∃ cut : List (List PlusEntry), cut.flatten = entries ∧ written.map Packet.payload =
      cut.map fun entries => FuseDirentPlus.layout.records (entries.map PlusEntry.wire) := by
  rw [foldlM_add hnames] at hw
  exact exists_cut_records PlusEntry.wire hw hv

lemma directory_entries_fit {packets : List Packet} {entries : List PlusEntry}
    (hfull : ∀ q ∈ packets, q.payload.length = maxPayloadSize) (hnames : ∀ e ∈ entries, ValidName e.name)
    (hlen : entries.length + 1 < packets.length) :
    ∃ w, entries.foldlM PlusEntry.add (.create packets) = some w ∧ w.getWritedPackets.isSome := by
  have hbytes : ∀ bytes ∈ entries.map PlusEntry.bytes, bytes.length ≤ maxPayloadSize := by
    intro bytes hb
    obtain ⟨e, he, rfl⟩ := List.mem_map.mp hb
    exact length_bytes_le (hnames e he)
  rw [foldlM_add hnames]
  exact DirectoryEntryWriter.getWritedPackets_isSome hfull hbytes (by rwa [List.length_map])

theorem directory_entries_survive (allocate : ClientDirectory → UInt64) (d : ClientDirectory)
    {packets : List Packet} {entries : List PlusEntry} (hfull : ∀ q ∈ packets, q.payload.length = maxPayloadSize)
    (hnames : ∀ e ∈ entries, ValidName e.name) :
    (entries.length + 1 < packets.length →
        ∃ w, entries.foldlM PlusEntry.add (.create packets) = some w ∧ w.getWritedPackets.isSome) ∧
      ∀ w written v, entries.foldlM PlusEntry.add (.create packets) = some w →
        w.getWritedPackets = some (written, v) →
        ∃ cut : List (List PlusEntry), cut.flatten = entries ∧
          written.map Packet.payload =
            (cut.map fun entries => FuseDirentPlus.layout.records (entries.map PlusEntry.wire)) ∧
          List.Forall₂ Walked cut (d.populate allocate written) := by
  refine ⟨directory_entries_fit hfull hnames, fun w written v hw hv => ?_⟩
  obtain ⟨cut, rfl, hpayload⟩ := exists_cut_entries hnames hw hv
  refine ⟨cut, rfl, hpayload, walked_populate allocate d (fun es hes e he => ?_) hpayload⟩
  exact hnames e (List.mem_flatten.mpr ⟨es, hes, he⟩)

def supply : List Packet := List.replicate 4 (Packet.ofPayload (List.replicate maxPayloadSize 0))

def twoEntries : List PlusEntry := [⟨[46], { FileStat.zero with ino := 7 }, 1⟩, ⟨[97], FileStat.zero, 3⟩]

lemma length_payload_supply : ∀ q ∈ supply, q.payload.length = maxPayloadSize := by
  intro q hq
  rw [List.eq_of_mem_replicate hq]
  exact List.length_replicate

theorem directory_entries_survive_two :
    ∃ w written v, twoEntries.foldlM PlusEntry.add (.create supply) = some w ∧
      w.getWritedPackets = some (written, v) ∧
      ∃ cut : List (List PlusEntry), cut.flatten = twoEntries ∧
        written.map Packet.payload =
          (cut.map fun entries => FuseDirentPlus.layout.records (entries.map PlusEntry.wire)) ∧
        List.Forall₂ Walked cut (ClientDirectory.populate (fun _ => 8) ⟨7, none, []⟩ written) := by
  have hnames : ∀ e ∈ twoEntries, ValidName e.name := by decide
  obtain ⟨hfit, hsurvive⟩ := directory_entries_survive (fun _ => 8) ⟨7, none, []⟩ length_payload_supply hnames
  obtain ⟨w, hw, hwritten⟩ := hfit (by decide)
  obtain ⟨⟨written, v⟩, hv⟩ := Option.isSome_iff_exists.mp hwritten
  exact ⟨w, written, v, hw, hv, hsurvive w written v hw hv⟩

end FastTransport.TaskQueue
