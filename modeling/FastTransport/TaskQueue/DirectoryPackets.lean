import FastTransport.Lib.Packing
import FastTransport.TaskQueue.ResponseReadDirJob

/-! The packets a directory listing needs: of the 99 that a job is given, the last is only ever advanced to. The pool
may hold packets of any size, among them the ones without payload that an earlier listing has left. -/

namespace FastTransport.TaskQueue

open Protocol Lib.Packing Lib.Records

namespace ServerDirectory

lemma validName_rescan {d : ServerDirectory} {disk : List DiskEntry} (hnames : ∀ c ∈ d.children, ValidName c.name)
    (hdisk : ∀ e ∈ disk, ValidName e.name) : ∀ c ∈ (d.rescan disk).children, ValidName c.name := by
  have hfold (children : List ServerChild) (h : ∀ c ∈ children, ValidName c.name) :
      ∀ c ∈ disk.foldl rescanEntry children, ValidName c.name := by
    induction disk generalizing children with
    | nil => exact h
    | cons e disk ih =>
      refine ih (fun e' he' => hdisk e' (List.mem_cons_of_mem e he')) _ fun c hc => ?_
      rcases rescanEntry_cases children e with heq | heq
      · exact h c (heq ▸ hc)
      · rw [heq, mem_insert] at hc
        rcases hc with rfl | hc
        · exact hdisk e List.mem_cons_self
        · exact h c hc
  exact hfold d.children hnames

end ServerDirectory

def ResponseReadDirJob.pageLengths (d : ServerDirectory) (size offset : ℕ) : List ℕ :=
  (pageEntries d size offset).map fun e => e.bytes.length

def ResponseReadDirPlusJob.pageLengths (d : ServerDirectory) (size offset : ℕ) : List ℕ :=
  (pageEntries d size offset).map fun e => e.bytes.length

def ResponseReadDirJob.RunsOut (d : ServerDirectory) (size offset : ℕ) (packets : List Packet) : Prop :=
  (DirectoryEntryWriter.create packets).RunsOut ((pageEntries d size offset).map DirEntry.bytes)

def ResponseReadDirPlusJob.RunsOut (d : ServerDirectory) (size offset : ℕ) (packets : List Packet) : Prop :=
  (DirectoryEntryWriter.create packets).RunsOut ((pageEntries d size offset).map PlusEntry.bytes)

variable {d : ServerDirectory} {disk : List DiskEntry} {packets : List Packet}

lemma ResponseReadDirJob.runsOut_iff (hne : packets ≠ []) (size offset : ℕ) :
    RunsOut d size offset packets ↔ TakesAll (DirectoryEntryWriter.sizes packets) (pageLengths d size offset) := by
  have h := DirectoryEntryWriter.runsOut_create_iff hne ((pageEntries d size offset).map DirEntry.bytes)
  rwa [List.map_map] at h

lemma ResponseReadDirPlusJob.runsOut_iff (hne : packets ≠ []) (size offset : ℕ) :
    RunsOut d size offset packets ↔ TakesAll (DirectoryEntryWriter.sizes packets) (pageLengths d size offset) := by
  have h := DirectoryEntryWriter.runsOut_create_iff hne ((pageEntries d size offset).map PlusEntry.bytes)
  rwa [List.map_map] at h

lemma ResponseReadDirJob.executeResponse_isSome_iff (hnames : ∀ c ∈ d.children, ValidName c.name)
    (hne : packets ≠ []) (size offset : ℕ) :
    (executeResponse d size offset packets).isSome ↔
      FitsBeforeLast (DirectoryEntryWriter.sizes packets) (pageLengths d size offset) := by
  have h := DirectoryEntryWriter.addEntries_isSome_iff hne ((pageEntries d size offset).map DirEntry.bytes)
  rw [List.map_map] at h
  rw [executeResponse_eq, DirectoryEntryWriter.isSome_bind_getWritedPackets,
    DirEntry.foldlM_add (validName_pageEntries hnames size offset)]
  exact h

lemma ResponseReadDirPlusJob.executeResponse_isSome_iff (hnames : ∀ c ∈ d.children, ValidName c.name)
    (hdisk : ∀ e ∈ disk, ValidName e.name) (hne : packets ≠ []) (size offset : ℕ) :
    (executeResponse d disk size offset packets).isSome ↔
      FitsBeforeLast (DirectoryEntryWriter.sizes packets) (pageLengths (d.rescan disk) size offset) := by
  have hrescan := d.validName_rescan hnames hdisk
  have h := DirectoryEntryWriter.addEntries_isSome_iff hne
    ((pageEntries (d.rescan disk) size offset).map PlusEntry.bytes)
  rw [List.map_map] at h
  rw [executeResponse_eq _ _ _ _ _ hrescan, DirectoryEntryWriter.isSome_bind_getWritedPackets,
    foldlM_add (validName_pageEntries hrescan size offset)]
  exact h

lemma ResponseReadDirJob.pageLengths_le (hnames : ∀ c ∈ d.children, ValidName c.name) (size offset : ℕ) :
    ∀ k ∈ pageLengths d size offset, k ≤ 280 := by
  intro k hk
  obtain ⟨e, he, rfl⟩ := List.mem_map.mp hk
  have hname := (validName_pageEntries hnames size offset e he).2.1
  have halign := align_le (FuseDirent.layout.headerSize + e.name.length)
  have hheader : FuseDirent.layout.headerSize = 24 := rfl
  have hdvd : 8 ∣ align (FuseDirent.layout.headerSize + e.name.length) := Dvd.intro_left _ rfl
  rw [nameMax] at hname
  rw [DirEntry.length_bytes, Layout.recordSize]
  omega

lemma ResponseReadDirPlusJob.pageLengths_le (hnames : ∀ c ∈ d.children, ValidName c.name) (size offset : ℕ) :
    ∀ k ∈ pageLengths d size offset, k ≤ 408 := by
  intro k hk
  obtain ⟨e, he, rfl⟩ := List.mem_map.mp hk
  have hname := (validName_pageEntries hnames size offset e he).2.1
  have halign := align_le (FuseDirentPlus.layout.headerSize + e.name.length)
  have hheader : FuseDirentPlus.layout.headerSize = 152 := rfl
  have hdvd : 8 ∣ align (FuseDirentPlus.layout.headerSize + e.name.length) := Dvd.intro_left _ rfl
  rw [nameMax] at hname
  rw [length_bytes, Layout.recordSize]
  omega

lemma fitsBeforeLast_of_full (hlen : packets.length = 99) (hfull : ∀ p ∈ packets, p.payload.length = maxPayloadSize)
    {lengths : List ℕ} :
    FitsBeforeLast (DirectoryEntryWriter.sizes packets) lengths ↔ Lib.Packing.Fits maxPayloadSize 98 lengths := by
  rw [DirectoryEntryWriter.sizes_of_full hlen hfull]
  exact fitsBeforeLast_replicate

lemma not_takesAll_of_full (hlen : packets.length = 99) (hfull : ∀ p ∈ packets, p.payload.length = maxPayloadSize)
    {lengths : List ℕ} (hle : ∀ k ∈ lengths, k ≤ maxPayloadSize) :
    ¬ TakesAll (DirectoryEntryWriter.sizes packets) lengths ↔ Lib.Packing.Fits maxPayloadSize 98 lengths := by
  rw [← fitsBeforeLast_of_full hlen hfull, DirectoryEntryWriter.sizes_of_full hlen hfull, List.replicate_succ]
  exact not_takesAll_iff fun k hk c hc => (List.eq_of_mem_replicate hc) ▸ hle k hk

/-- A listing stays within its 99 packets exactly when no beginning of it takes up all of them, each entry being put
into the next packet where it has no room. With packets of full size that is when its entries, in order, can be cut
into 98 payloads. -/
theorem listing_packets_iff (hnames : ∀ c ∈ d.children, ValidName c.name) (hdisk : ∀ e ∈ disk, ValidName e.name)
    (hlen : packets.length = 99) (size offset : ℕ) :
    ((¬ ResponseReadDirJob.RunsOut d size offset packets ↔
          ¬ TakesAll (DirectoryEntryWriter.sizes packets) (ResponseReadDirJob.pageLengths d size offset)) ∧
        (¬ ResponseReadDirPlusJob.RunsOut (d.rescan disk) size offset packets ↔
          ¬ TakesAll (DirectoryEntryWriter.sizes packets)
            (ResponseReadDirPlusJob.pageLengths (d.rescan disk) size offset))) ∧
      ((ResponseReadDirJob.executeResponse d size offset packets).isSome ↔
        FitsBeforeLast (DirectoryEntryWriter.sizes packets) (ResponseReadDirJob.pageLengths d size offset)) ∧
      ((ResponseReadDirPlusJob.executeResponse d disk size offset packets).isSome ↔
        FitsBeforeLast (DirectoryEntryWriter.sizes packets)
          (ResponseReadDirPlusJob.pageLengths (d.rescan disk) size offset)) ∧
      ((∀ p ∈ packets, p.payload.length = maxPayloadSize) →
        (¬ ResponseReadDirJob.RunsOut d size offset packets ↔
            Lib.Packing.Fits maxPayloadSize 98 (ResponseReadDirJob.pageLengths d size offset)) ∧
          (¬ ResponseReadDirPlusJob.RunsOut (d.rescan disk) size offset packets ↔
            Lib.Packing.Fits maxPayloadSize 98 (ResponseReadDirPlusJob.pageLengths (d.rescan disk) size offset))) := by
  have hne : packets ≠ [] := List.ne_nil_of_length_eq_add_one hlen
  have hdir := not_congr (ResponseReadDirJob.runsOut_iff (d := d) hne size offset)
  have hplus := not_congr (ResponseReadDirPlusJob.runsOut_iff (d := d.rescan disk) hne size offset)
  refine ⟨⟨hdir, hplus⟩, ResponseReadDirJob.executeResponse_isSome_iff hnames hne size offset,
    ResponseReadDirPlusJob.executeResponse_isSome_iff hnames hdisk hne size offset, fun hfull => ⟨?_, ?_⟩⟩
  · refine hdir.trans (not_takesAll_of_full hlen hfull fun k hk => ?_)
    exact (ResponseReadDirJob.pageLengths_le hnames size offset k hk).trans (by decide)
  · refine hplus.trans (not_takesAll_of_full hlen hfull fun k hk => ?_)
    exact (ResponseReadDirPlusJob.pageLengths_le (d.validName_rescan hnames hdisk) size offset k hk).trans (by decide)

def fullPackets : List Packet := List.replicate 99 (Packet.ofPayload (List.replicate maxPayloadSize 0))

lemma length_payload_fullPackets : ∀ p ∈ fullPackets, p.payload.length = maxPayloadSize := by
  intro p hp
  rw [List.eq_of_mem_replicate hp]
  exact List.length_replicate

lemma length_fullPackets : fullPackets.length = 99 := List.length_replicate

def shortPackets : List Packet := Packet.ofPayload [] :: fullPackets.tail

lemma sizes_shortPackets : DirectoryEntryWriter.sizes shortPackets = 0 :: List.replicate 98 maxPayloadSize := by
  have hlen : fullPackets.tail.length = 98 := by rw [List.length_tail, length_fullPackets]
  have hfull := fun p hp => length_payload_fullPackets p (List.mem_of_mem_tail hp)
  exact congrArg (List.cons 0) (DirectoryEntryWriter.sizes_of_full hlen hfull)

theorem listing_packets_iff_twoChildren :
    (¬ ResponseReadDirJob.RunsOut ResponseReadDirPlusJob.twoChildren 4096 0 shortPackets ∧
        ¬ ResponseReadDirPlusJob.RunsOut (ResponseReadDirPlusJob.twoChildren.rescan []) 4096 0 shortPackets) ∧
      (ResponseReadDirJob.executeResponse ResponseReadDirPlusJob.twoChildren 4096 0 shortPackets).isSome ∧
      (ResponseReadDirPlusJob.executeResponse ResponseReadDirPlusJob.twoChildren [] 4096 0 shortPackets).isSome := by
  have hdir : ResponseReadDirJob.pageLengths ResponseReadDirPlusJob.twoChildren 4096 0 = [32, 32, 32, 32] := by decide
  have hplus : ResponseReadDirPlusJob.pageLengths (ResponseReadDirPlusJob.twoChildren.rescan []) 4096 0 =
      [160, 160, 160] := by decide +kernel
  have hfits : FitsBeforeLast (0 :: List.replicate 98 maxPayloadSize) [32, 32, 32, 32] ∧
      FitsBeforeLast (0 :: List.replicate 98 maxPayloadSize) [160, 160, 160] := by decide +kernel
  have hroom (lengths : List ℕ) (hle : ∀ k ∈ lengths, k ≤ maxPayloadSize) :
      ∀ k ∈ lengths, ∀ c ∈ List.replicate 98 maxPayloadSize, k ≤ c :=
    fun k hk c hc => (List.eq_of_mem_replicate hc) ▸ hle k hk
  have hlen : shortPackets.length = 99 := by
    rw [shortPackets, List.length_cons, List.length_tail, length_fullPackets]
  obtain ⟨⟨hruns, hruns'⟩, hsome, hsome', -⟩ :=
    @listing_packets_iff ResponseReadDirPlusJob.twoChildren [] shortPackets (by decide)
      (fun e he => absurd he List.not_mem_nil) hlen 4096 0
  rw [hruns, hruns', hsome, hsome', sizes_shortPackets, hdir, hplus, not_takesAll_iff (hroom _ (by decide)),
    not_takesAll_iff (hroom _ (by decide))]
  exact ⟨hfits, hfits⟩

namespace ResponseReadDirJob

lemma length_pageLengths (d : ServerDirectory) (size offset : ℕ) : (pageLengths d size offset).length ≤ size + 2 := by
  have hcount := List.length_take_le size (d.children.drop (offset - 1))
  have hfirst : (if offset < 1 then [dot d] else []).length ≤ 1 := by split_ifs <;> simp
  have hsecond : (if offset < 2 then [dotDot] else []).length ≤ 1 := by split_ifs <;> simp
  rw [pageLengths, List.length_map, pageEntries, List.length_append, List.length_append, length_childEntries]
  omega

/-- Requests of at most 356 entries never run out of full packets, however long the names are. -/
theorem executeResponse_isSome_of_size_le (hnames : ∀ c ∈ d.children, ValidName c.name) (hlen : packets.length = 99)
    (hfull : ∀ p ∈ packets, p.payload.length = maxPayloadSize) {size : ℕ} (hsize : size ≤ 356) (offset : ℕ) :
    (executeResponse d size offset packets).isSome := by
  rw [executeResponse_isSome_iff hnames (List.ne_nil_of_length_eq_add_one hlen), fitsBeforeLast_of_full hlen hfull]
  have hle := pageLengths_le hnames size offset
  have hsum := List.sum_le_card_nsmul _ 280 hle
  have hcount := length_pageLengths d size offset
  rw [smul_eq_mul] at hsum
  have hmax : maxPayloadSize = 1300 := rfl
  have htotal : (pageLengths d size offset).sum ≤ 97 * (maxPayloadSize + 1 - 280) + maxPayloadSize := by omega
  exact fits_of_sum_le (by decide : 280 ≤ maxPayloadSize) hle htotal

end ResponseReadDirJob

namespace ResponseReadDirPlusJob

lemma sum_childEntries_le (size : ℕ) (cs : List ServerChild) (i writedSize : ℕ) :
    writedSize + ((childEntries size cs i writedSize).map fun e => e.bytes.length).sum ≤ max writedSize size := by
  induction cs generalizing i writedSize with
  | nil => exact le_max_left _ _
  | cons c cs ih =>
    rw [childEntries]
    split_ifs with hlt
    · exact ih (i + 1) writedSize
    · have hrest := ih (i + 1) (writedSize + FuseDirentPlus.layout.recordSize c.name.length)
      have hbytes : (childEntry c i).bytes.length = FuseDirentPlus.layout.recordSize c.name.length := length_bytes _
      rw [List.map_cons, List.sum_cons, hbytes]
      omega
    · exact le_max_left _ _

lemma length_bytes_dot (d : ServerDirectory) : (dot d).bytes.length = 160 := by
  have hsize : FuseDirentPlus.layout.recordSize 1 = 160 := by decide
  exact (length_bytes (dot d)).trans hsize

lemma length_bytes_dotDot : dotDot.bytes.length = 160 := by
  have hsize : FuseDirentPlus.layout.recordSize 2 = 160 := by decide
  exact (length_bytes dotDot).trans hsize

lemma sum_pageLengths_le (d : ServerDirectory) (size offset : ℕ) :
    (pageLengths d size offset).sum ≤ max 320 size := by
  rw [pageLengths, pageEntries, List.map_append, List.sum_append]
  refine (sum_childEntries_le size _ _ _).trans (max_le_max ?_ le_rfl)
  split_ifs <;> simp [length_bytes_dot, length_bytes_dotDot]

/-- Pages are cut by bytes here: requests of at most 87921 never run out of full packets. -/
theorem executeResponse_isSome_of_size_le (hnames : ∀ c ∈ d.children, ValidName c.name)
    (hdisk : ∀ e ∈ disk, ValidName e.name) (hlen : packets.length = 99)
    (hfull : ∀ p ∈ packets, p.payload.length = maxPayloadSize) {size : ℕ} (hsize : size ≤ 87921) (offset : ℕ) :
    (executeResponse d disk size offset packets).isSome := by
  rw [executeResponse_isSome_iff hnames hdisk (List.ne_nil_of_length_eq_add_one hlen),
    fitsBeforeLast_of_full hlen hfull]
  have hsum := sum_pageLengths_le (d.rescan disk) size offset
  have hmax : maxPayloadSize = 1300 := rfl
  have htotal : (pageLengths (d.rescan disk) size offset).sum ≤ 97 * (maxPayloadSize + 1 - 408) + maxPayloadSize := by
    omega
  exact fits_of_sum_le (by decide : 408 ≤ maxPayloadSize)
    (pageLengths_le (d.validName_rescan hnames hdisk) size offset) htotal

end ResponseReadDirPlusJob

def longName (i : ℕ) : List UInt8 := List.replicate 253 97 ++ [.ofNat (i / 200 + 1), .ofNat (i % 200 + 1)]

def longNames : ServerDirectory :=
  ⟨7, FileStat.zero, (List.range 400).map fun i => ⟨longName i, false, FileStat.zero, .ofNat (i + 8)⟩⟩

lemma length_longName (i : ℕ) : (longName i).length = 255 := by
  rw [longName, List.length_append, List.length_replicate]
  rfl

lemma ofNat_succ_ne_zero {i : ℕ} (h : i < 200) : (0 : UInt8) ≠ .ofNat (i + 1) := by
  intro heq
  have htoNat := congrArg UInt8.toNat heq
  have hlt : i + 1 < UInt8.size := by
    rw [UInt8.size]
    omega
  rw [UInt8.toNat_ofNat_of_lt' hlt] at htoNat
  exact absurd htoNat (Nat.succ_ne_zero i).symm

lemma validName_longName {i : ℕ} (h : i < 400) : ValidName (longName i) := by
  refine ⟨List.ne_nil_of_length_pos ?_, ?_, ?_⟩
  · rw [length_longName]
    decide
  · rw [length_longName]
    decide
  · rw [longName, List.mem_append, List.mem_pair]
    rintro (hzero | hzero | hzero)
    · exact absurd (List.eq_of_mem_replicate hzero) (by decide)
    · exact ofNat_succ_ne_zero (by omega) hzero
    · exact ofNat_succ_ne_zero (Nat.mod_lt i (by decide)) hzero

lemma mem_longNames {c : ServerChild} (h : c ∈ longNames.children) :
    ValidName c.name ∧ c.name.length = 255 ∧ c.deleted = false := by
  obtain ⟨i, hi, rfl⟩ := List.mem_map.mp h
  exact ⟨validName_longName (List.mem_range.mp hi), length_longName i, rfl⟩

lemma length_children_longNames : longNames.children.length = 400 := by
  rw [longNames, List.length_map, List.length_range]

lemma ResponseReadDirJob.length_bytes_childEntries {cs : List ServerChild} {length i : ℕ}
    (h : ∀ c ∈ cs, c.name.length = length) :
    (childEntries cs i).map (fun e => e.bytes.length) =
      List.replicate cs.length (FuseDirent.layout.recordSize length) := by
  refine List.eq_replicate_iff.mpr ⟨?_, fun k hk => ?_⟩
  · rw [List.length_map, length_childEntries]
  · obtain ⟨e, he, rfl⟩ := List.mem_map.mp hk
    obtain ⟨c, hc, j, rfl⟩ := mem_childEntries he
    rw [DirEntry.length_bytes, ← h c hc]
    rfl

lemma ResponseReadDirPlusJob.length_bytes_childEntries {cs : List ServerChild} {size length i writedSize : ℕ}
    (h : ∀ c ∈ cs, c.name.length = length ∧ c.deleted = false)
    (hsize : writedSize + cs.length * FuseDirentPlus.layout.recordSize length < size) :
    (childEntries size cs i writedSize).map (fun e => e.bytes.length) =
      List.replicate cs.length (FuseDirentPlus.layout.recordSize length) := by
  induction cs generalizing i writedSize with
  | nil => rfl
  | cons c cs ih =>
    obtain ⟨hname, hdeleted⟩ := h c List.mem_cons_self
    rw [List.length_cons, Nat.succ_mul] at hsize
    rw [childEntries, hname, if_pos (by omega), hdeleted, if_neg Bool.false_ne_true, List.map_cons,
      ih (fun c' hc' => h c' (List.mem_cons_of_mem c hc')) (by omega), length_bytes, List.length_cons,
      List.replicate_succ, childEntry, hname]

lemma not_fits_replicate {count size : ℕ} (hcount : 98 * (maxPayloadSize / size) < count) (hsize : 0 < size) :
    ¬ Lib.Packing.Fits maxPayloadSize 98 (List.replicate count size) := by
  intro h
  have hle := h.length_le (fun s hs => (List.eq_of_mem_replicate hs).ge)
    (Nat.lt_mul_of_div_lt (Nat.lt_succ_self (maxPayloadSize / size)) hsize)
  rw [List.length_replicate] at hle
  omega

lemma ResponseReadDirJob.not_fits_longNames : ¬ Lib.Packing.Fits maxPayloadSize 98 (pageLengths longNames 4096 0) := by
  have hlen := length_children_longNames
  rw [pageLengths, pageEntries_zero, List.take_of_length_le (by omega), List.map_cons, List.map_cons,
    length_bytes_childEntries fun c hc => (mem_longNames hc).2.1, hlen]
  exact fun h => not_fits_replicate (by decide) (by decide) h.of_cons.of_cons

lemma ResponseReadDirPlusJob.not_fits_longNames : ¬ Lib.Packing.Fits maxPayloadSize 98 (pageLengths longNames 1048576 0) := by
  have hlen := length_children_longNames
  have hsize : FuseDirentPlus.layout.recordSize 255 = 408 := by decide
  rw [pageLengths, pageEntries_zero, List.map_cons, List.map_cons, length_bytes_dot, length_bytes_dotDot,
    length_bytes_childEntries (fun c hc => (mem_longNames hc).2) (by rw [hlen, hsize]; decide), hlen, hsize]
  have hnot : ¬ Lib.Packing.Fits maxPayloadSize 98 (List.replicate 400 408) := not_fits_replicate (by decide) (by decide)
  exact fun h => hnot h.of_cons.of_cons

theorem listing_runs_out :
    (ResponseReadDirJob.RunsOut longNames 4096 0 fullPackets ∧
        ResponseReadDirPlusJob.RunsOut (longNames.rescan []) 1048576 0 fullPackets) ∧
      ¬ (ResponseReadDirJob.executeResponse longNames 4096 0 fullPackets).isSome ∧
      ¬ (ResponseReadDirPlusJob.executeResponse longNames [] 1048576 0 fullPackets).isSome := by
  have hnames : ∀ c ∈ longNames.children, ValidName c.name := fun c hc => (mem_longNames hc).1
  have hdisk : ∀ e ∈ ([] : List DiskEntry), ValidName e.name := fun e he => absurd he List.not_mem_nil
  have hne : fullPackets ≠ [] := List.ne_nil_of_length_eq_add_one length_fullPackets
  have hfits {lengths : List ℕ} : FitsBeforeLast (DirectoryEntryWriter.sizes fullPackets) lengths ↔
      Lib.Packing.Fits maxPayloadSize 98 lengths := fitsBeforeLast_of_full length_fullPackets length_payload_fullPackets
  have hruns {lengths : List ℕ} (hle : ∀ k ∈ lengths, k ≤ maxPayloadSize) :
      ¬ TakesAll (DirectoryEntryWriter.sizes fullPackets) lengths ↔ Lib.Packing.Fits maxPayloadSize 98 lengths :=
    not_takesAll_of_full length_fullPackets length_payload_fullPackets hle
  refine ⟨⟨?_, ?_⟩, ?_, ?_⟩
  · rw [ResponseReadDirJob.runsOut_iff hne]
    by_contra hnot
    refine ResponseReadDirJob.not_fits_longNames ((hruns fun k hk => ?_).mp hnot)
    exact (ResponseReadDirJob.pageLengths_le hnames 4096 0 k hk).trans (by decide)
  · rw [ResponseReadDirPlusJob.runsOut_iff hne]
    by_contra hnot
    refine ResponseReadDirPlusJob.not_fits_longNames ((hruns fun k hk => ?_).mp hnot)
    exact (ResponseReadDirPlusJob.pageLengths_le hnames 1048576 0 k hk).trans (by decide)
  · rw [ResponseReadDirJob.executeResponse_isSome_iff hnames hne, hfits]
    exact ResponseReadDirJob.not_fits_longNames
  · rw [ResponseReadDirPlusJob.executeResponse_isSome_iff hnames hdisk hne, hfits]
    exact ResponseReadDirPlusJob.not_fits_longNames

end FastTransport.TaskQueue
