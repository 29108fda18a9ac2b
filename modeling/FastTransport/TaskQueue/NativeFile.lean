import FastTransport.FileCache.Client
import FastTransport.Protocol.WriterLedger
import FastTransport.TaskQueue.TaskScheduler

/-! `NativeFile::Read` in the arithmetic of its types: the count of vectors is an `int`, sizes and the result of
`preadv` are in a `size_t`. -/

namespace FastTransport.TaskQueue.NativeFile

open Lib.Bytes Protocol Protocol.DirectoryEntryWriter

/-- What `preadv` returns for the bytes it reads, none where it fails. -/
def result : Option (List UInt8) → ℤ
  | none => -1
  | some bytes => bytes.length

def readed (bytes : Option (List UInt8)) : ℕ := (result bytes % 2 ^ 64).toNat

/-- `none`: an overflow of `int`, or a negative size for a vector. -/
def blockCount (size blockSize : ℕ) : Option ℕ :=
  let blocks := Int.bmod (size / blockSize : ℕ) (2 ^ 32) + if size % blockSize ≠ 0 then 1 else 0
  if 0 ≤ blocks ∧ blocks < 2 ^ 31 then some blocks.toNat else none

def fill (blockSize : ℕ) (bytes : List UInt8) (i : ℕ) (p : Packet) : Packet :=
  (p.setPayloadSize blockSize).withPayload
    (overwrite (p.setPayloadSize blockSize).payload 0 (slice bytes (i * blockSize) blockSize))

def readCount (readed blockSize : ℕ) : ℕ := (readed + blockSize - 1) % 2 ^ 64 / blockSize

/-- A packet keeps 16 bits of the size it is told. -/
def lastSize (readed blockSize count : ℕ) : ℕ :=
  (readed + 2 ^ 64 - (count - 1) * blockSize % 2 ^ 64) % 2 ^ 64 % 2 ^ 16

/-- The packets that are returned and those left in the list; `none` where the call throws or is undefined. -/
def read (packets : List Packet) (size : ℕ) (bytes : Option (List UInt8)) : Option (List Packet × List Packet) :=
  packets.head?.bind fun front =>
    let blockSize := front.payload.length
    if blockSize = 0 then none
    else
      (blockCount size blockSize).bind fun blocks =>
        if packets.length < blocks then none
        else
          let packets := (packets.take blocks).mapIdx (fill blockSize (bytes.getD [])) ++ packets.drop blocks
          if blockSize * packets.length % 2 ^ 64 = readed bytes then some (packets, [])
          else
            let count := readCount (readed bytes) blockSize
            let readPackets := packets.take count
            some (readPackets.modify (readPackets.length - 1) fun p =>
              p.setPayloadSize (lastSize (readed bytes) blockSize readPackets.length), packets.drop count)

section

variable {packets : List Packet} {blockSize size : ℕ} {bytes : Option (List UInt8)}

lemma readed_some (bytes : List UInt8) (h : bytes.length < 2 ^ 63) : readed (some bytes) = bytes.length := by
  rw [readed, result, Int.emod_eq_of_lt (by omega) (by omega), Int.toNat_natCast]

lemma readed_none : readed none = 2 ^ 64 - 1 := by decide

lemma result_max (bytes : Option (List UInt8)) : max (result bytes) 0 = ((bytes.getD []).length : ℤ) := by
  cases bytes with
  | none => rfl
  | some bytes => exact max_eq_left (Int.natCast_nonneg _)

lemma ceil_eq {n b : ℕ} (hb : 0 < b) : (n + b - 1) / b = n / b + if n % b ≠ 0 then 1 else 0 := by
  have hn := Nat.div_add_mod n b
  have hm := Nat.mod_lt n hb
  split_ifs with h
  · have he : n + b - 1 = (n % b - 1) + b * (n / b + 1) := by
      rw [Nat.mul_add]
      omega
    rw [he, Nat.add_mul_div_left _ _ hb, Nat.div_eq_of_lt (by omega), Nat.zero_add]
  · have he : n + b - 1 = (b - 1) + b * (n / b) := by omega
    rw [he, Nat.add_mul_div_left _ _ hb, Nat.div_eq_of_lt (by omega), Nat.zero_add, Nat.add_zero]

lemma ceil_le {n b k : ℕ} (hb : 0 < b) (h : n ≤ k * b) : (n + b - 1) / b ≤ k := by
  have hlt : n + b - 1 < (k + 1) * b := by
    rw [Nat.succ_mul]
    omega
  exact Nat.le_of_lt_succ ((Nat.div_lt_iff_lt_mul hb).mpr hlt)

lemma le_ceil_mul {n b : ℕ} (hb : 0 < b) : n ≤ (n + b - 1) / b * b := by
  have h := Nat.lt_div_mul_add hb (a := n + b - 1)
  omega

lemma pred_ceil_mul_le {n b : ℕ} (hb : 0 < b) : ((n + b - 1) / b - 1) * b ≤ n := by
  have h := Nat.div_mul_le_self (n + b - 1) b
  rw [Nat.sub_one_mul]
  omega

lemma bmod_eq {n : ℕ} (h : n < 2 ^ 31) : Int.bmod n (2 ^ 32) = n := by
  have he : (n : ℤ) % ((2 ^ 32 : ℕ) : ℤ) = n := Int.emod_eq_of_lt (Int.natCast_nonneg n) (by push_cast; omega)
  rw [Int.bmod_eq_emod_of_lt (by rw [he]; push_cast; omega), he]

lemma blockCount_eq (hb : 0 < blockSize) (h : (size + blockSize - 1) / blockSize < 2 ^ 31) :
    blockCount size blockSize = some ((size + blockSize - 1) / blockSize) := by
  rw [ceil_eq hb] at h ⊢
  unfold blockCount
  generalize size / blockSize = q at h ⊢
  have hq : q < 2 ^ 31 := by omega
  have hcast : (q : ℤ) + (if size % blockSize ≠ 0 then 1 else 0) =
      ((q + if size % blockSize ≠ 0 then 1 else 0 : ℕ) : ℤ) := by
    split_ifs <;> simp
  generalize q + (if size % blockSize ≠ 0 then 1 else 0) = k at h hcast ⊢
  have hlt : (k : ℤ) < 2 ^ 31 := by omega
  simp only [bmod_eq hq, hcast, if_pos (And.intro (Int.natCast_nonneg k) hlt), Int.toNat_natCast]

lemma readCount_eq (hB : 2 ≤ blockSize) (hb : blockSize < 2 ^ 63) (hr : (bytes.getD []).length < 2 ^ 63) :
    readCount (readed bytes) blockSize = ((bytes.getD []).length + blockSize - 1) / blockSize := by
  cases bytes with
  | none =>
    -- the error and the rounding wrap around to two less than a block
    have hwrap : (2 ^ 64 - 1 + blockSize - 1) % 2 ^ 64 = blockSize - 2 := by
      omega
    rw [readCount, readed_none, hwrap, Nat.div_eq_of_lt (by omega), Option.getD_none, List.length_nil,
      Nat.div_eq_of_lt (by omega)]
  | some bytes =>
    simp only [Option.getD_some] at hr ⊢
    rw [readCount, readed_some _ (by omega), Nat.mod_eq_of_lt (by omega)]

lemma lastSize_eq {r b k : ℕ} (hk : (k - 1) * b ≤ r) (hr : r < 2 ^ 63) (hlast : r - (k - 1) * b < 2 ^ 16) :
    lastSize r b k = r - (k - 1) * b := by
  unfold lastSize
  generalize (k - 1) * b = full at hk hlast ⊢
  omega

lemma length_fill (bytes : List UInt8) (i : ℕ) (p : Packet) : (fill blockSize bytes i p).payload.length = blockSize := by
  have hlen := length_setPayloadSize p blockSize
  rw [fill, Packet.withPayload_payload, overwrite_length, hlen]
  rw [hlen, Nat.zero_add, slice, List.length_take]
  exact Nat.min_le_left _ _

lemma fill_truncated (bytes : List UInt8) (i : ℕ) (p : Packet) :
    (fill blockSize bytes i p).setPayloadSize (slice bytes (i * blockSize) blockSize).length =
      p.withPayload (slice bytes (i * blockSize) blockSize) := by
  have hle : (slice bytes (i * blockSize) blockSize).length ≤ (fill blockSize bytes i p).payload.length := by
    rw [length_fill, slice, List.length_take]
    exact Nat.min_le_left _ _
  rw [Packet.setPayloadSize, Nat.sub_eq_zero_of_le hle, List.replicate_zero, List.append_nil, fill,
    Packet.withPayload_payload, Packet.withPayload_withPayload, overwrite, List.take_zero, List.nil_append,
    List.take_left]
  rfl

lemma setPayloadSize_self {p : Packet} (h : p.payload.length = blockSize) : p.setPayloadSize blockSize = p := by
  rw [Packet.setPayloadSize, h, Nat.sub_self, List.replicate_zero, List.append_nil, List.take_of_length_le h.le]
  rfl

lemma fill_full {bytes : List UInt8} {i : ℕ} (h : (slice bytes (i * blockSize) blockSize).length = blockSize)
    (p : Packet) : fill blockSize bytes i p = p.withPayload (slice bytes (i * blockSize) blockSize) := by
  rw [← fill_truncated, h, setPayloadSize_self (length_fill bytes i p)]

lemma fill_empty {bytes : List UInt8} {i : ℕ} (h : bytes.length ≤ i * blockSize) {p : Packet}
    (hp : p.payload.length = blockSize) : fill blockSize bytes i p = p := by
  have hs : slice bytes (i * blockSize) blockSize = [] := by
    rw [slice, List.drop_eq_nil_of_le h, List.take_nil]
  rw [fill, hs, overwrite_nil, setPayloadSize_self hp]
  rfl

lemma slice_length_eq {bytes : List UInt8} {i : ℕ} (h : (i + 1) * blockSize ≤ bytes.length) :
    (slice bytes (i * blockSize) blockSize).length = blockSize :=
  slice_length (by rwa [Nat.succ_mul] at h)

lemma fill_vectors {bytes : List UInt8} (hsize : ∀ p ∈ packets, p.payload.length = blockSize) {blocks : ℕ}
    (hblocks : bytes.length ≤ blocks * blockSize) :
    (packets.take blocks).mapIdx (fill blockSize bytes) ++ packets.drop blocks =
      packets.mapIdx (fill blockSize bytes) := by
  have hrest : (packets.drop blocks).mapIdx (fun i => fill blockSize bytes (i + (packets.take blocks).length)) =
      packets.drop blocks := by
    refine List.mapIdx_eq_iff.mpr fun i => ?_
    cases hp : (packets.drop blocks)[i]? with
    | none => rfl
    | some p =>
      have hlt := (List.getElem?_eq_some_iff.mp hp).1
      rw [List.length_drop] at hlt
      have hle : bytes.length ≤ (i + (packets.take blocks).length) * blockSize := by
        rw [List.length_take, Nat.min_eq_left (by omega)]
        exact hblocks.trans (Nat.mul_le_mul_right _ (Nat.le_add_left _ _))
      rw [Option.map_some, fill_empty hle (hsize p (List.mem_of_mem_drop (List.mem_of_getElem? hp)))]
  nth_rewrite 3 [← List.take_append_drop blocks packets]
  rw [List.mapIdx_append, hrest]

lemma drop_fill {bytes : List UInt8} (hsize : ∀ p ∈ packets, p.payload.length = blockSize) {k : ℕ}
    (hk : bytes.length ≤ k * blockSize) :
    (packets.mapIdx (fill blockSize bytes)).drop k = (packets.drop k).map fun p => p.setPayloadSize blockSize := by
  refine List.ext_getElem (by simp) fun i h₁ h₂ => ?_
  have hlt : k + i < packets.length := by
    simp at h₁
    omega
  have hmem : packets[k + i] ∈ packets := List.getElem_mem hlt
  simp only [List.getElem_drop, List.getElem_mapIdx, List.getElem_map]
  rw [fill_empty (hk.trans (Nat.mul_le_mul_right _ (Nat.le_add_right _ _))) (hsize _ hmem),
    setPayloadSize_self (hsize _ hmem)]

lemma take_fill {bytes : List UInt8} {k : ℕ} (hk : k ≤ packets.length) (hfull : (k - 1) * blockSize ≤ bytes.length)
    (hlast : bytes.length ≤ k * blockSize) :
    ((packets.mapIdx (fill blockSize bytes)).take k).modify (k - 1)
        (fun p => p.setPayloadSize (bytes.length - (k - 1) * blockSize)) =
      (packets.take k).mapIdx fun i p => p.withPayload (slice bytes (i * blockSize) blockSize) := by
  refine List.ext_getElem (by simp) fun i h₁ h₂ => ?_
  have hi : i < k := by
    simp only [List.length_mapIdx, List.length_take] at h₂
    omega
  simp only [List.getElem_modify, List.getElem_take, List.getElem_mapIdx]
  split_ifs with hlt
  · subst hlt
    have hlen : (slice bytes ((k - 1) * blockSize) blockSize).length = bytes.length - (k - 1) * blockSize := by
      rw [slice, List.length_take, List.length_drop]
      have hk : k * blockSize = (k - 1) * blockSize + blockSize := by
        rw [← Nat.succ_mul]
        congr 1
        omega
      omega
    simp only [← hlen, fill_truncated]
  · exact fill_full (slice_length_eq ((Nat.mul_le_mul_right _ (by omega)).trans hfull)) _

lemma fill_packets {bytes : List UInt8} (h : packets.length * blockSize ≤ bytes.length) :
    packets.mapIdx (fill blockSize bytes) =
      packets.mapIdx fun i p => p.withPayload (slice bytes (i * blockSize) blockSize) := by
  refine List.ext_getElem (by simp) fun i h₁ h₂ => ?_
  simp only [List.getElem_mapIdx]
  rw [List.length_mapIdx] at h₁
  exact fill_full (slice_length_eq ((Nat.mul_le_mul_right _ h₁).trans h)) _

lemma read_eq_nativeRead (hne : packets ≠ []) (hsize : ∀ p ∈ packets, p.payload.length = blockSize)
    (hB : 2 ≤ blockSize) (hb : blockSize < 2 ^ 16) (hcount : packets.length < 2 ^ 31)
    (hrequest : size ≤ packets.length * blockSize) (hresult : (bytes.getD []).length ≤ size) :
    read packets size bytes = nativeRead packets bytes := by
  obtain ⟨front, rest, rfl⟩ := List.exists_cons_of_ne_nil hne
  have hpos : 0 < blockSize := by omega
  have hfront := hsize front List.mem_cons_self
  have hblocks := ceil_le hpos hrequest
  have htotal : (front :: rest).length * blockSize < 2 ^ 31 * 2 ^ 16 := Nat.mul_lt_mul'' hcount hb
  have hcover := hresult.trans (le_ceil_mul (n := size) hpos)
  have hk := ceil_le hpos (hresult.trans hrequest)
  have hvectors := blockCount_eq hpos (lt_of_le_of_lt hblocks hcount)
  simp only [read, nativeRead, List.head?_cons, Option.bind_some, hfront, if_neg hpos.ne', hvectors,
    if_neg (not_lt.mpr hblocks), fill_vectors hsize hcover, List.length_mapIdx]
  set packets := front :: rest
  have hmod : blockSize * packets.length % 2 ^ 64 = packets.length * blockSize := by
    rw [Nat.mul_comm, Nat.mod_eq_of_lt (by omega)]
  rw [hmod, readCount_eq hB (by omega) (by omega)]
  cases bytes with
  | none =>
    have hzero : (blockSize - 1) / blockSize = 0 := Nat.div_eq_of_lt (by omega)
    have hdrop : (packets.mapIdx (fill blockSize [])).drop 0 = _ := drop_fill hsize (Nat.zero_le _)
    rw [if_neg (by rw [readed_none]; omega)]
    simp only [Option.getD_none, List.length_nil, Nat.zero_add, hzero, List.take_zero, List.modify_nil,
      List.mapIdx_nil, hdrop]
  | some bytes =>
    simp only [Option.getD_some] at hk hcover hresult ⊢
    rw [readed_some bytes (by omega)]
    have hlast := le_ceil_mul (n := bytes.length) hpos
    split_ifs with hfull
    · have hall : (bytes.length + blockSize - 1) / blockSize = packets.length :=
        le_antisymm hk (Nat.le_of_mul_le_mul_right (hfull ▸ hlast) hpos)
      rw [hall, List.take_length, List.drop_length, List.map_nil, fill_packets hfull.le]
    · have hfirst := pred_ceil_mul_le (n := bytes.length) hpos
      have hlen : ((packets.mapIdx (fill blockSize bytes)).take ((bytes.length + blockSize - 1) / blockSize)).length =
          (bytes.length + blockSize - 1) / blockSize := by
        rw [List.length_take, List.length_mapIdx, Nat.min_eq_left hk]
      have hlt : bytes.length - ((bytes.length + blockSize - 1) / blockSize - 1) * blockSize < 2 ^ 16 := by
        rw [Nat.sub_one_mul]
        omega
      rw [hlen, lastSize_eq hfirst (by omega) hlt, take_fill hk hfirst hlast, drop_fill hsize hlast]

end

def blockSizes (readed blockSize : ℕ) : List ℕ :=
  (List.range ((readed + blockSize - 1) / blockSize)).map fun i => min blockSize (readed - i * blockSize)

section

variable {r b : ℕ}

lemma sum_blocks (r b k : ℕ) : ((List.range k).map fun i => min b (r - i * b)).sum = min (k * b) r := by
  induction k with
  | zero => simp
  | succ k ih =>
    rw [List.range_succ, List.map_append, List.sum_append, ih, List.map_singleton, List.sum_singleton, Nat.succ_mul]
    omega

lemma blockSizes_sum (hb : 0 < b) : (blockSizes r b).sum = r := by
  rw [blockSizes, sum_blocks, Nat.min_eq_right (le_ceil_mul hb)]

lemma mem_blockSizes (hb : 0 < b) {n : ℕ} (h : n ∈ blockSizes r b) : 0 < n ∧ n ≤ b := by
  obtain ⟨i, hi, rfl⟩ := List.mem_map.mp h
  have hpred := pred_ceil_mul_le (n := r) hb
  have hi := List.mem_range.mp hi
  refine ⟨?_, Nat.min_le_left _ _⟩
  have hlt : i * b < r := by
    have hceil := (Nat.le_div_iff_mul_le hb).mp (Nat.succ_le_of_lt hi)
    rw [Nat.succ_mul] at hceil
    omega
  omega

lemma blockSizes_eq (hb : 0 < b) (hr : 0 < r) :
    ∃ m, m * b ≤ r ∧ blockSizes r b = List.replicate m b ++ [r - m * b] := by
  obtain ⟨m, hm⟩ : ∃ m, (r + b - 1) / b = m + 1 :=
    Nat.exists_eq_succ_of_ne_zero (Nat.div_pos (by omega) hb).ne'
  have hfull := pred_ceil_mul_le (n := r) hb
  have hlast := le_ceil_mul (n := r) hb
  rw [hm, Nat.add_sub_cancel] at hfull
  rw [hm, Nat.succ_mul] at hlast
  refine ⟨m, hfull, ?_⟩
  rw [blockSizes, hm, List.range_succ, List.map_append, List.map_singleton, Nat.min_eq_right (by omega)]
  congr 1
  have hall : ∀ i ∈ List.range m, min b (r - i * b) = b := fun i hi => by
    have hle := (Nat.mul_le_mul_right b (Nat.succ_le_of_lt (List.mem_range.mp hi))).trans hfull
    rw [Nat.succ_mul] at hle
    omega
  simpa using List.map_eq_replicate_iff.mpr hall

lemma blockSizes_zero (hb : 0 < b) : blockSizes 0 b = [] := by
  rw [blockSizes, Nat.zero_add, Nat.div_eq_of_lt (by omega), List.range_zero, List.map_nil]

lemma blockSizes_dropLast (hb : 0 < b) : ∀ n ∈ (blockSizes r b).dropLast, n = b := by
  intro n hn
  rcases Nat.eq_zero_or_pos r with rfl | hr
  · rw [blockSizes_zero hb] at hn
    exact absurd hn List.not_mem_nil
  · obtain ⟨m, -, he⟩ := blockSizes_eq hb hr
    rw [he, List.dropLast_concat] at hn
    exact (List.mem_replicate.mp hn).2

lemma blockSizes_applied (hb : 0 < b) {front back : ℕ} (hfront : (blockSizes r b).head? = some front)
    (hback : (blockSizes r b).getLast? = some back) : ((blockSizes r b).length - 1) * front + back = r := by
  rcases Nat.eq_zero_or_pos r with rfl | hr
  · rw [blockSizes_zero hb] at hfront
    cases hfront
  · obtain ⟨m, hle, he⟩ := blockSizes_eq hb hr
    rw [he, List.getLast?_concat] at hback
    rw [he] at hfront ⊢
    rw [List.length_append, List.length_replicate, List.length_singleton, Nat.add_sub_cancel, ← Option.some.inj hback]
    cases m with
    | zero => omega
    | succ m =>
      rw [List.replicate_succ, List.cons_append, List.head?_cons] at hfront
      rw [← Option.some.inj hfront]
      omega

end

lemma readed_of_blockSizes {r b : ℕ} (hb : 0 < b) {job : FileCache.ApplyBlockCacheJob}
    (h : (job.data.map fun p => p.payload.length) = blockSizes r b) : job.readed = r := by
  have happlied := @blockSizes_applied r b hb
  rw [← h, List.length_map, List.head?_map, List.getLast?_map] at happlied
  rw [FileCache.ApplyBlockCacheJob.readed]
  cases hd : job.data with
  | nil =>
    rw [hd, List.map_nil] at h
    simpa [← h] using blockSizes_sum (r := r) hb
  | cons p ps =>
    rw [hd] at happlied
    rw [List.getLast?_cons] at happlied ⊢
    exact happlied rfl rfl

lemma sizes_nativeRead {packets readPackets left : List Packet} {bytes : Option (List UInt8)} {b : ℕ} (hb : 0 < b)
    (hsize : ∀ p ∈ packets, p.payload.length = b) (hle : (bytes.getD []).length ≤ packets.length * b)
    (h : nativeRead packets bytes = some (readPackets, left)) :
    sizes readPackets = blockSizes (bytes.getD []).length b ∧ (∀ p ∈ left, p.payload.length = b) ∧
      (readPackets ++ left).map Packet.identity = packets.map Packet.identity := by
  obtain ⟨front, hfront, h⟩ := Option.bind_eq_some_iff.mp h
  have hf : front.payload.length = b := hsize front (List.mem_of_head? hfront)
  simp only [hf, if_neg hb.ne'] at h
  have hk := ceil_le hb hle
  generalize hr : bytes.getD [] = read at h hk ⊢
  generalize hc : (read.length + b - 1) / b = k at h hk
  cases h
  refine ⟨?_, fun p hp => ?_, ?_⟩
  · rw [blockSizes, hc]
    refine List.ext_getElem (by simp [sizes, hk]) fun i h₁ h₂ => ?_
    simp [sizes, slice]
  · obtain ⟨q, -, rfl⟩ := List.mem_map.mp hp
    exact length_setPayloadSize q b
  · have hread : ((packets.take k).mapIdx fun i p => p.withPayload (slice read (i * b) b)).map Packet.identity =
        (packets.take k).map Packet.identity :=
      List.ext_getElem (by simp) fun i h₁ h₂ => by simp
    have hleft : ((packets.drop k).map fun p => p.setPayloadSize b).map Packet.identity =
        (packets.drop k).map Packet.identity := by
      rw [List.map_map]
      rfl
    rw [List.map_append, hread, hleft, ← List.map_append, List.take_append_drop]

lemma nativeRead_isSome {packets : List Packet} {bytes : Option (List UInt8)} {b : ℕ} (hb : 0 < b)
    (hne : packets ≠ []) (hsize : ∀ p ∈ packets, p.payload.length = b) : ∃ r, nativeRead packets bytes = some r := by
  obtain ⟨front, rest, rfl⟩ := List.exists_cons_of_ne_nil hne
  simp only [nativeRead, List.head?_cons, Option.bind_some, hsize front List.mem_cons_self, if_neg hb.ne']
  exact ⟨_, rfl⟩

theorem read_sizes {packets : List Packet} {blockSize size : ℕ} {bytes : Option (List UInt8)} (hne : packets ≠ [])
    (hsize : ∀ p ∈ packets, p.payload.length = blockSize) (hB : 2 ≤ blockSize) (hb : blockSize < 2 ^ 16)
    (hcount : packets.length < 2 ^ 31) (hrequest : size ≤ packets.length * blockSize)
    (hresult : result bytes ≤ size) :
    ∃ readPackets left, read packets size bytes = some (readPackets, left) ∧
      (readPackets ++ left).map Packet.identity = packets.map Packet.identity ∧
      (∀ p ∈ left, p.payload.length = blockSize) ∧
      (∀ n ∈ (sizes readPackets).dropLast, n = blockSize) ∧ (∀ n ∈ sizes readPackets, 0 < n ∧ n ≤ blockSize) ∧
      ((sizes readPackets).sum : ℤ) = max (result bytes) 0 ∧
      ∀ job : FileCache.ApplyBlockCacheJob, (job.data.map fun p => p.payload.length) = sizes readPackets →
        (job.readed : ℤ) = max (result bytes) 0 := by
  have hpos : 0 < blockSize := by omega
  have hlen : (bytes.getD []).length ≤ size := by
    cases bytes with
    | none => exact Nat.zero_le _
    | some bytes => exact Int.ofNat_le.mp hresult
  have hread := read_eq_nativeRead hne hsize hB hb hcount hrequest hlen
  obtain ⟨⟨readPackets, left⟩, he⟩ := @nativeRead_isSome packets bytes blockSize hpos hne hsize
  obtain ⟨hs, hleft, hid⟩ := sizes_nativeRead hpos hsize (hlen.trans hrequest) he
  rw [result_max]
  refine ⟨readPackets, left, hread.trans he, hid, hleft, ?_, ?_, ?_, fun job hjob => ?_⟩
  · rw [hs]
    exact blockSizes_dropLast hpos
  · rw [hs]
    exact fun n hn => mem_blockSizes hpos hn
  · rw [hs, blockSizes_sum hpos]
  · rw [hs] at hjob
    rw [readed_of_blockSizes hpos hjob]

theorem read_sizes_short :
    ∃ readPackets left, read [.ofPayload [0, 0], .ofPayload [0, 0]] 4 (some [7, 8, 9]) = some (readPackets, left) ∧
      (readPackets ++ left).map Packet.identity =
        [Packet.ofPayload [0, 0], .ofPayload [0, 0]].map Packet.identity ∧
      (∀ p ∈ left, p.payload.length = 2) ∧
      (∀ n ∈ (sizes readPackets).dropLast, n = 2) ∧ (∀ n ∈ sizes readPackets, 0 < n ∧ n ≤ 2) ∧
      ((sizes readPackets).sum : ℤ) = max (result (some [7, 8, 9])) 0 ∧
      ∀ job : FileCache.ApplyBlockCacheJob, (job.data.map fun p => p.payload.length) = sizes readPackets →
        (job.readed : ℤ) = max (result (some [7, 8, 9])) 0 :=
  read_sizes (by decide) (by decide) (by decide) (by decide) (by decide) (by decide) (by decide)

theorem read_too_many_packets : ∃ packets : List Packet, packets ≠ [] ∧ (∀ p ∈ packets, p.payload.length = 2) ∧
    2 ^ 32 ≤ packets.length * 2 ∧ read packets (2 ^ 32) none = none := by
  have hcount : blockCount (2 ^ 32) 2 = none := by decide
  refine ⟨List.replicate (2 ^ 31) (.ofPayload [0, 0]), ?_, fun p hp => ?_, ?_, ?_⟩
  · exact fun h => absurd (List.replicate_eq_nil_iff _ |>.mp h) (by decide)
  · rw [List.eq_of_mem_replicate hp]
    rfl
  · rw [List.length_replicate]
    norm_num
  · rw [read, List.head?_replicate, if_neg (by decide), Option.bind_some]
    exact if_neg (by decide) |>.trans (by rw [show (Packet.ofPayload [0, 0]).payload.length = 2 from rfl, hcount]; rfl)

end FastTransport.TaskQueue.NativeFile
