import FastTransport.FileSystem.Leaf
import FastTransport.Protocol.Packet

/-! A leaf whose cache holds whole blocks of the file, each in one range: what `GetData` reads from it. -/

namespace FastTransport.FileSystem

open Lib.Bytes Protocol

def payloads (packets : List CachedPacket) : List UInt8 := packets.flatMap CachedPacket.payload

@[simp] lemma payloads_nil : payloads [] = [] := rfl

@[simp] lemma payloads_cons (p : CachedPacket) (ps : List CachedPacket) :
    payloads (p :: ps) = p.payload ++ payloads ps := rfl

@[simp] lemma payloads_append (ps qs : List CachedPacket) :
    payloads (ps ++ qs) = payloads ps ++ payloads qs := List.flatMap_append

lemma payloads_length {packets : List CachedPacket} {n : ℕ} (h : ∀ p ∈ packets, p.payload.length = n) :
    (payloads packets).length = packets.length * n := by
  induction packets with
  | nil => simp
  | cons p ps ih =>
    rw [payloads_cons, List.length_append, ih fun q hq => h q (List.mem_cons_of_mem _ hq),
      h p List.mem_cons_self, List.length_cons, Nat.succ_mul, Nat.add_comm]

def blockOf (content : List UInt8) (index : ℕ) : List UInt8 := slice content (index * blockSize) blockSize

def IsCut (bytes : List UInt8) (packets : List CachedPacket) : Prop :=
  ∃ init last, packets = init ++ [last] ∧ (∀ p ∈ init, p.payload.length = maxPayloadSize) ∧
    0 < last.payload.length ∧ last.payload.length ≤ maxPayloadSize ∧ payloads packets = bytes

structure WholeBlock (content : List UInt8) (index : ℕ) (range : Range) : Prop where
  offset : range.offset = index * blockSize
  size : range.size = (blockOf content index).length
  packets : IsCut (blockOf content index) range.packets

lemma WholeBlock.of_eq {content : List UInt8} {index : ℕ} {r r' : Range} (h : WholeBlock content index r)
    (ho : r'.offset = r.offset) (hs : r'.size = r.size) (hp : r'.packets = r.packets) :
    WholeBlock content index r' := ⟨ho.trans h.offset, hs.trans h.size, hp ▸ h.packets⟩

lemma IsCut.ne_nil {bytes : List UInt8} {packets : List CachedPacket} (h : IsCut bytes packets) :
    packets ≠ [] := by
  obtain ⟨init, last, rfl, -⟩ := h
  simp

lemma skipPackets_spec {ps : List CachedPacket} {start : ℕ} (h : start < (payloads ps).length) :
    ∃ k p rest, skipPackets ps start = some (k, p :: rest) ∧ k < p.payload.length ∧
      p :: rest ⊆ ps ∧ (payloads (p :: rest)).drop k = (payloads ps).drop start := by
  induction ps generalizing start with
  | nil => simp at h
  | cons p ps ih =>
    rw [skipPackets]
    split_ifs with hp
    · rw [payloads_cons, List.length_append] at h
      have h' : start - p.payload.length < (payloads ps).length := by omega
      obtain ⟨k, q, rest, hk, hq, hs, hd⟩ := ih h'
      refine ⟨k, q, rest, hk, hq, fun x hx => List.mem_cons_of_mem _ (hs hx), ?_⟩
      rw [hd, payloads_cons, List.drop_append, List.drop_eq_nil_of_le hp, List.nil_append]
    · exact ⟨start, p, ps, rfl, not_le.mp hp, fun _ hx => hx, rfl⟩

lemma takeSpans_size (ps : List CachedPacket) (readed : ℕ) :
    ((takeSpans ps 0 readed).map Span.size).sum = min readed (payloads ps).length := by
  induction ps generalizing readed with
  | nil => simp [takeSpans]
  | cons p ps ih =>
    rw [takeSpans]
    split_ifs with hr
    · simp [hr]
    · rw [List.map_cons, List.sum_cons, ih, payloads_cons, List.length_append]
      simp only [Nat.sub_zero]
      omega

lemma takeSpans_bytes (ps : List CachedPacket) (readed : ℕ) :
    (takeSpans ps 0 readed).flatMap Span.bytes = (payloads ps).take readed := by
  induction ps generalizing readed with
  | nil => simp [takeSpans]
  | cons p ps ih =>
    rw [takeSpans]
    split_ifs with hr
    · simp [hr]
    · rw [List.flatMap_cons, ih, payloads_cons, List.take_append]
      simp only [Span.bytes, slice, Nat.sub_zero, List.drop_zero]
      rcases le_total p.payload.length readed with hl | hl
      · rw [Nat.min_eq_left hl, List.take_length, List.take_of_length_le hl]
      · rw [Nat.min_eq_right hl, Nat.sub_self, Nat.sub_eq_zero_of_le hl]

lemma takeSpans_cons_size {p : CachedPacket} {ps : List CachedPacket} {start readed : ℕ}
    (hs : start < p.payload.length) (hr : readed ≠ 0) :
    ((takeSpans (p :: ps) start readed).map Span.size).sum =
      min readed ((payloads (p :: ps)).length - start) := by
  rw [takeSpans, if_neg hr, List.map_cons, List.sum_cons, takeSpans_size, payloads_cons, List.length_append]
  dsimp only
  omega

lemma takeSpans_cons_bytes {p : CachedPacket} {ps : List CachedPacket} {start readed : ℕ}
    (hs : start < p.payload.length) (hr : readed ≠ 0) :
    (takeSpans (p :: ps) start readed).flatMap Span.bytes =
      ((payloads (p :: ps)).drop start).take readed := by
  rw [takeSpans, if_neg hr, List.flatMap_cons, takeSpans_bytes, payloads_cons,
    List.drop_append_of_le_length hs.le, List.take_append, List.length_drop]
  simp only [Span.bytes, slice]
  rcases le_total (p.payload.length - start) readed with hl | hl
  · have hd : (p.payload.drop start).length ≤ readed := by rwa [List.length_drop]
    rw [Nat.min_eq_left hl, List.take_of_length_le hd, List.take_of_length_le (by rw [List.length_drop])]
  · rw [Nat.min_eq_right hl, Nat.sub_self, Nat.sub_eq_zero_of_le hl]

namespace Leaf

variable {J : Type}

def Held (leaf : Leaf J) (view : BufferView) : Prop :=
  ∀ s ∈ view.spans, ∃ e ∈ leaf.data, ∃ r ∈ e.2, r.id ∈ view.pin ∧ s.packet ∈ r.packets

structure HoldsBlocks (leaf : Leaf J) (content : List UInt8) : Prop where
  size : leaf.size = content.length
  whole : ∀ e ∈ leaf.data, ∃ r, e.2 = [r] ∧ WholeBlock content e.1 r

structure Reads (leaf : Leaf J) (content : List UInt8) (offset readed : ℕ) (view view' : BufferView)
    (total : ℕ) : Prop where
  le : total ≤ readed
  bytes : view'.bytes = view.bytes ++ slice content offset total
  totalSize : view'.totalSize = view.totalSize + total
  idle : total = 0 → view' = view
  missing : total < readed → leaf.findBlock ((offset + total) / blockSize) = none
  aligned : 0 < total → total < readed → (offset + total) % blockSize = 0
  held : leaf.Held view'
  pinsOwn : leaf.PinsOwn view'.pin

lemma Reads.total_eq {leaf : Leaf J} {content : List UInt8} {offset readed total : ℕ} {view : BufferView}
    (h : leaf.Reads content offset readed .empty view total) (ho : offset % blockSize = 0)
    (hr : readed ≤ blockSize) (hd : view.hasData = true) : total = readed := by
  have hpos : 0 < total := by
    by_contra h0
    rw [h.idle (by omega)] at hd
    cases hd
  by_contra hne
  have hlt : total < readed := lt_of_le_of_ne h.le hne
  have hmod := h.aligned hpos hlt
  rw [Nat.add_mod, ho, Nat.zero_add, Nat.mod_mod, Nat.mod_eq_of_lt (hlt.trans_le hr)] at hmod
  omega

lemma Reads.totalSize_eq {leaf : Leaf J} {content : List UInt8} {offset readed total : ℕ} {view : BufferView}
    (h : leaf.Reads content offset readed .empty view total) : view.totalSize = total :=
  h.totalSize.trans (Nat.zero_add _)

lemma blockOf_length (content : List UInt8) (index : ℕ) :
    (blockOf content index).length = min blockSize (content.length - index * blockSize) :=
  slice_length_eq _ _ _

lemma getDataLoop_turn {leaf : Leaf J} {content : List UInt8} {offset readed : ℕ} {range : Range}
    (hf : leaf.findBlock (offset / blockSize) = some [range])
    (hw : WholeBlock content (offset / blockSize) range) (ho : offset < content.length) (hr : readed ≠ 0) :
    ∃ spans n, 0 < n ∧ n = min readed (min blockSize (content.length - offset / blockSize * blockSize) -
        (offset - offset / blockSize * blockSize)) ∧
      (spans.map Span.size).sum = n ∧ spans.flatMap Span.bytes = slice content offset n ∧
      (∀ s ∈ spans, s.packet ∈ range.packets) ∧
      ∀ fuel view, leaf.getDataLoop (fuel + 1) offset readed view =
        leaf.getDataLoop fuel (offset + n) (readed - n) ⟨view.spans ++ spans, view.pin ++ [range.id]⟩ := by
  have hb : offset / blockSize * blockSize ≤ offset := Nat.div_mul_le_self _ _
  have hlt : offset < offset / blockSize * blockSize + blockSize :=
    Nat.lt_div_mul_add blockSize_pos
  obtain ⟨hoff, hsize, hcut⟩ := hw
  have hpay : payloads range.packets = blockOf content (offset / blockSize) := by
    obtain ⟨_, _, _, _, _, _, h⟩ := hcut
    exact h
  have hlen := blockOf_length content (offset / blockSize)
  have hstart : offset - range.offset < (payloads range.packets).length := by
    rw [hpay, hlen, hoff]
    omega
  obtain ⟨k, p, rest, hskip, hk, hsub, hdrop⟩ := skipPackets_spec hstart
  have hrest : (payloads (p :: rest)).length - k = (blockOf content (offset / blockSize)).length -
      (offset - offset / blockSize * blockSize) := by
    rw [← List.length_drop, hdrop, List.length_drop, hpay, hoff]
  have hsum : ((takeSpans (p :: rest) k readed).map Span.size).sum = _ := takeSpans_cons_size hk hr
  rw [hrest, hlen] at hsum
  refine ⟨takeSpans (p :: rest) k readed, _, ?_, rfl, hsum, ?_, fun s hs => hsub (takeSpans_mem hs), ?_⟩
  · omega
  · rw [takeSpans_cons_bytes hk hr, hdrop, hpay, hoff]
    change slice (slice content (offset / blockSize * blockSize) blockSize) _ readed = _
    rw [slice_slice, Nat.add_sub_cancel' hb, slice_eq_min, slice_eq_min content offset (min readed _)]
    congr 1
    omega
  · intro fuel view
    have htake : ([range].takeWhile fun r => r.offset ≤ offset) = [range] := by
      simp [List.takeWhile, hoff, hb]
    rw [getDataLoop, if_neg hr, hf]
    simp only [htake, List.getLast?_singleton]
    rw [if_pos (by rw [hsize, hoff, hlen]; omega), if_neg hcut.ne_nil, hskip]
    simp only [hsum]

lemma block_end_mod_eq_zero {offset readed length size n : ℕ}
    (hn : n = min readed (min size (length - offset / size * size) - (offset - offset / size * size)))
    (ht : n < readed) (ho : offset + readed ≤ length) (hs : 0 < size) : (offset + n) % size = 0 := by
  have hb := Nat.div_mul_le_self offset size
  have hlt : offset < offset / size * size + size := Nat.lt_div_mul_add hs
  have hend : offset + n = offset / size * size + size := by omega
  rw [hend, ← Nat.succ_mul, Nat.mul_mod_left]

lemma getDataLoop_spec {leaf : Leaf J} {content : List UInt8} (hl : leaf.HoldsBlocks content) {fuel : ℕ} :
    ∀ (offset readed : ℕ) (view : BufferView), readed ≤ fuel → offset + readed ≤ content.length →
      leaf.Held view → leaf.PinsOwn view.pin →
      ∃ view' total, leaf.getDataLoop fuel offset readed view = some view' ∧
        leaf.Reads content offset readed view view' total := by
  induction fuel with
  | zero =>
    intro offset readed view hfuel _ hheld hpins
    have hr : readed = 0 := by omega
    subst hr
    exact ⟨view, 0, rfl, le_rfl, by simp [slice], rfl, fun _ => rfl, fun h => absurd h (by omega),
      fun h => absurd h (by omega), hheld, hpins⟩
  | succ fuel ih =>
    intro offset readed view hfuel ho hheld hpins
    by_cases hr : readed = 0
    · subst hr
      exact ⟨view, 0, by rw [getDataLoop, if_pos rfl], le_rfl, by simp [slice], rfl, fun _ => rfl,
        fun h => absurd h (by omega), fun h => absurd h (by omega), hheld, hpins⟩
    cases hf : leaf.findBlock (offset / blockSize) with
    | none =>
      exact ⟨view, 0, by rw [getDataLoop, if_neg hr, hf], Nat.zero_le _, by simp [slice], rfl, fun _ => rfl,
        fun _ => hf, fun h => absurd h (by omega), hheld, hpins⟩
    | some ranges =>
      have hmem := mem_of_findBlock hf
      obtain ⟨range, hrange, hw⟩ := hl.whole _ hmem
      simp only at hrange
      subst hrange
      obtain ⟨spans, n, hpos, hn, hsum, hbytes, hpackets, hloop⟩ := getDataLoop_turn hf hw (by omega) hr
      have hheld' : leaf.Held ⟨view.spans ++ spans, view.pin ++ [range.id]⟩ := by
        intro s hs
        rcases List.mem_append.mp hs with hs | hs
        · obtain ⟨e, he, r, hr, hid, hp⟩ := hheld s hs
          exact ⟨e, he, r, hr, List.mem_append_left _ hid, hp⟩
        · exact ⟨_, hmem, range, List.mem_cons_self, List.mem_append_right _ List.mem_cons_self, hpackets s hs⟩
      have hpins' : leaf.PinsOwn (view.pin ++ [range.id]) := by
        intro id hid
        rcases List.mem_append.mp hid with hid | hid
        · exact hpins id hid
        · exact ⟨_, hmem, range, List.mem_cons_self, (List.mem_singleton.mp hid).symm⟩
      have hnr : n ≤ readed := by omega
      obtain ⟨view', total, hview, h⟩ := ih (offset + n) (readed - n) _ (by omega) (by omega)
        hheld' hpins'
      refine ⟨view', n + total, by rw [hloop, hview], ?_⟩
      refine ⟨by have := h.le; omega, ?_, ?_, fun h0 => absurd h0 (by omega), ?_, ?_, h.held, h.pinsOwn⟩
      · rw [h.bytes, slice_append, BufferView.bytes, BufferView.bytes, List.flatMap_append, hbytes,
          List.append_assoc]
      · rw [h.totalSize, BufferView.totalSize, BufferView.totalSize, List.map_append, List.sum_append, hsum,
          Nat.add_assoc]
      · intro ht
        rw [← Nat.add_assoc]
        exact h.missing (by omega)
      · intro _ ht
        rw [← Nat.add_assoc]
        rcases Nat.eq_zero_or_pos total with h0 | h0
        · rw [h0, Nat.add_zero]
          exact block_end_mod_eq_zero hn (by omega) ho blockSize_pos
        · exact h.aligned h0 (by omega)

theorem getData_spec {leaf : Leaf J} {content : List UInt8} (hl : leaf.HoldsBlocks content)
    {offset : ℕ} (size : ℕ) (ho : offset < content.length) :
    ∃ view total, leaf.getData offset size = some view ∧
      leaf.Reads content offset (min size (content.length - offset)) .empty view total := by
  rw [getData, if_neg (by rw [hl.size]; omega), hl.size]
  exact getDataLoop_spec hl _ _ _ le_rfl (by omega) (fun s hs => absurd hs List.not_mem_nil)
    (fun id hid => absurd hid List.not_mem_nil)

end Leaf

structure WholeData (fileSize index : ℕ) (data : List CachedPacket) : Prop where
  cut : IsCut (payloads data) data
  length : (payloads data).length = min blockSize (fileSize - index * blockSize)

structure WholeRange (fileSize index : ℕ) (range : Range) : Prop where
  offset : range.offset = index * blockSize
  size : range.size = min blockSize (fileSize - index * blockSize)
  data : WholeData fileSize index range.packets

lemma IsCut.length_eq {bytes : List UInt8} {packets : List CachedPacket} (h : IsCut bytes packets) :
    ∃ l, 0 < l ∧ l ≤ maxPayloadSize ∧ bytes.length = (packets.length - 1) * maxPayloadSize + l := by
  obtain ⟨init, last, rfl, hi, hpos, hle, rfl⟩ := h
  refine ⟨last.payload.length, hpos, hle, ?_⟩
  simp [payloads_length hi]

lemma addRange_whole {fileSize index : ℕ} {range : Range} {data : List CachedPacket}
    (hr : WholeRange fileSize index range) (hin : index * blockSize < fileSize) (hd : WholeData fileSize index data)
    (id : ℕ) :
    (addRange [range] id (index * blockSize) (min blockSize (fileSize - index * blockSize)) data).2 = [range] := by
  have hpos : 0 < min blockSize (fileSize - index * blockSize) := by
    have := blockSize_pos
    omega
  obtain ⟨l, hl, hlm, hlen⟩ := hd.cut.length_eq
  rw [hd.length] at hlen
  obtain ⟨init, last, hpackets, hinit, -⟩ := hr.data.cut
  rw [← hr.size] at hpos hlen ⊢
  rw [← hr.offset]
  have hne : ¬ range.offset + range.size = range.offset := by omega
  simp only [addRange, List.takeWhile_cons, List.takeWhile_nil, List.dropWhile_cons, List.dropWhile_nil, le_refl,
    decide_true, if_true, List.getLast?_singleton, if_neg hne, Nat.le_add_right, List.any_cons, List.any_nil,
    Bool.or_false]
  split_ifs with h1
  · have hskipped : data.length ≤ (range.size + maxPayloadSize - 1) / maxPayloadSize := by
      rw [Nat.le_div_iff_mul_le (hl.trans_le hlm), hlen]
      obtain ⟨n, hn⟩ := Nat.exists_eq_succ_of_ne_zero (List.length_pos_iff.mpr hd.cut.ne_nil).ne'
      rw [hn, Nat.succ_mul, Nat.succ_sub_one]
      omega
    cases init with
    | nil => simp [hpackets] at h1
    | cons p ps =>
      have hp : p.payload.length = maxPayloadSize := hinit p List.mem_cons_self
      have hcancel : range.offset + range.size - range.offset = range.size := Nat.add_sub_cancel_left _ _
      simp only [hcancel, hpackets, List.cons_append, List.head?_cons, Option.map_some, Option.getD_some, hp,
        List.drop_of_length_le hskipped, List.append_nil, List.dropLast_singleton, List.nil_append,
        Nat.add_sub_cancel]
      rw [← List.cons_append, ← hpackets]
  · rfl

namespace Leaf

variable {J : Type}

def HoldsWhole (leaf : Leaf J) : Prop := ∀ e ∈ leaf.data, ∃ r, e.2 = [r] ∧ WholeRange leaf.size e.1 r

def cachedContent (leaf : Leaf J) : List UInt8 :=
  (List.range leaf.size).map fun k => ((leaf.findBlock (k / blockSize)).bind fun ranges =>
    (payloads (ranges.flatMap Range.packets))[k % blockSize]?).getD 0

lemma HoldsWhole.holdsBlocks {leaf : Leaf J} (h : leaf.HoldsWhole) (hk : leaf.KeysNodup) :
    leaf.HoldsBlocks leaf.cachedContent := by
  have hlen : leaf.cachedContent.length = leaf.size := by simp [cachedContent]
  refine ⟨hlen.symm, fun e he => ?_⟩
  obtain ⟨r, hr, hw⟩ := h e he
  have hblock : blockOf leaf.cachedContent e.1 = payloads r.packets := by
    have hsize := hw.data.length
    refine List.ext_getElem? fun k => ?_
    rw [blockOf, getElem?_slice]
    split_ifs with hlt
    · have hdiv : (e.1 * blockSize + k) / blockSize = e.1 := by
        rw [Nat.mul_comm, Nat.mul_add_div blockSize_pos, Nat.div_eq_of_lt hlt, Nat.add_zero]
      have hmod : (e.1 * blockSize + k) % blockSize = k := by
        rw [Nat.mul_add_mod', Nat.mod_eq_of_lt hlt]
      have hf : leaf.findBlock e.1 = some [r] := hr ▸ hk.findBlock he
      by_cases hin : e.1 * blockSize + k < leaf.size
      · have hpk : k < (payloads r.packets).length := by omega
        simp [cachedContent, hin, hdiv, hmod, hf, hpk]
      · rw [List.getElem?_eq_none (by omega), List.getElem?_eq_none (by omega)]
    · rw [List.getElem?_eq_none (by omega)]
  refine ⟨r, hr, hw.offset, ?_, ?_⟩
  · rw [hblock, hw.data.length, hw.size]
  · rw [hblock]
    exact hw.data.cut

end Leaf

end FastTransport.FileSystem
