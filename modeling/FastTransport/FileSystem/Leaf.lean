import FastTransport.Lib.Bytes

/-! A file of the tree: its cached ranges, the status of its blocks and the jobs parked on them. -/

namespace FastTransport.FileSystem

open Lib.Bytes

def blockSize : ℕ := 1000 * 1300

lemma blockSize_pos : 0 < blockSize := by
  norm_num [blockSize]

inductive PieceStatus
  | notFound | inFlight | inCache | onDisk
  deriving DecidableEq, Repr

structure PiecesStatus where
  pieces : List PieceStatus
  deriving DecidableEq, Repr

namespace PiecesStatus

def create (size : ℕ) : PiecesStatus := ⟨List.replicate size .notFound⟩

def getStatus (s : PiecesStatus) (index : ℕ) : PieceStatus := s.pieces.getD index .notFound

def setStatus (s : PiecesStatus) (index : ℕ) (status : PieceStatus) : PiecesStatus :=
  ⟨s.pieces.set index status⟩

def size (s : PiecesStatus) : ℕ := s.pieces.length

@[simp] lemma size_create (n : ℕ) : (create n).size = n := List.length_replicate

@[simp] lemma getStatus_create (n index : ℕ) : (create n).getStatus index = .notFound := by
  simp only [create, getStatus, List.getD_eq_getElem?_getD, List.getElem?_replicate]
  split_ifs <;> rfl

@[simp] lemma size_setStatus (s : PiecesStatus) (index : ℕ) (status : PieceStatus) :
    (s.setStatus index status).size = s.size := List.length_set

lemma getStatus_setStatus (s : PiecesStatus) {index : ℕ} (status : PieceStatus) (j : ℕ)
    (h : index < s.size) :
    (s.setStatus index status).getStatus j = if j = index then status else s.getStatus j := by
  simp only [getStatus, setStatus, List.getD_eq_getElem?_getD]
  by_cases hj : j = index
  · rw [hj, List.getElem?_set_self h, if_pos rfl]
    rfl
  · rw [List.getElem?_set_ne (Ne.symm hj), if_neg hj]

lemma getStatus_setStatus_cases (s : PiecesStatus) (index : ℕ) (status : PieceStatus) (j : ℕ) :
    (s.setStatus index status).getStatus j = status ∨
      (s.setStatus index status).getStatus j = s.getStatus j := by
  simp only [getStatus, setStatus, List.getD_eq_getElem?_getD, List.getElem?_set]
  split_ifs with h1 h2
  · exact Or.inl rfl
  · subst h1
    rw [List.getElem?_eq_none (not_lt.mp h2)]
    exact Or.inr rfl
  · exact Or.inr rfl

lemma getStatus_setStatus_of_ne (s : PiecesStatus) {index j : ℕ} (status : PieceStatus) (h : j ≠ index) :
    (s.setStatus index status).getStatus j = s.getStatus j := by
  simp only [getStatus, setStatus, List.getD_eq_getElem?_getD, List.getElem?_set_ne h.symm]

end PiecesStatus

/-- A packet of the cache: its buffer and what lies in that buffer behind the payload. -/
structure CachedPacket where
  id : ℕ
  payload : List UInt8
  behind : List UInt8
  deriving DecidableEq, Repr

structure Range where
  id : ℕ
  offset : ℕ
  size : ℕ
  packets : List CachedPacket
  counter : ℤ
  deriving DecidableEq, Repr

namespace Range

def create (id offset size : ℕ) (packets : List CachedPacket) : Range := ⟨id, offset, size, packets, 1⟩

def isPinned (r : Range) : Bool := 1 < r.counter

def pin (r : Range) (ids : List ℕ) : Range := { r with counter := r.counter + ids.count r.id }

def unpin (r : Range) (ids : List ℕ) : Range := { r with counter := r.counter - ids.count r.id }

end Range

structure Span where
  packet : CachedPacket
  start : ℕ
  size : ℕ
  deriving DecidableEq, Repr

def Span.bytes (s : Span) : List UInt8 := slice s.packet.payload s.start s.size

structure BufferView where
  spans : List Span
  pin : List ℕ
  deriving DecidableEq, Repr

namespace BufferView

def empty : BufferView := ⟨[], []⟩

def hasData (v : BufferView) : Bool := !v.spans.isEmpty

def totalSize (v : BufferView) : ℕ := (v.spans.map Span.size).sum

def bytes (v : BufferView) : List UInt8 := v.spans.flatMap Span.bytes

end BufferView

structure Leaf (J : Type) where
  name : String
  parent : ℕ
  size : ℕ
  data : List (ℕ × List Range)
  piecesStatus : PiecesStatus
  pendingJobs : List (ℕ × J)

def addRange (ranges : List Range) (id offset size : ℕ) (data : List CachedPacket) :
    List CachedPacket × List Range :=
  let before := ranges.takeWhile fun r => r.offset ≤ offset
  let after := ranges.dropWhile fun r => r.offset ≤ offset
  let inserted : List CachedPacket × List Range :=
    if before.any fun r => r.offset = offset then ([], ranges)
    else ([], before ++ Range.create id offset size data :: after)
  let overlapping : List CachedPacket × List Range :=
    match before.getLast?, after with
    | none, [] => ([], [Range.create id offset size data])
    | none, next :: rest =>
      if offset ≤ next.offset ∧ next.offset + next.size ≤ offset + size then
        (next.packets, Range.create id offset size data :: rest)
      else ([], Range.create id offset size data :: next :: rest)
    | some prev, _ =>
      if offset ≤ prev.offset + prev.size then
        if prev.offset + prev.size = offset then
          ([], before.dropLast ++
            { prev with packets := prev.packets ++ data, size := prev.size + size } :: after)
        else if 1 < prev.packets.length then
          let skipSize := prev.offset + prev.size - offset
          let payloadSize := (prev.packets.head?.map fun p => p.payload.length).getD 0
          let skipped := (skipSize + payloadSize - 1) / payloadSize
          (data.take skipped, before.dropLast ++
            { prev with packets := prev.packets ++ data.drop skipped
                        size := prev.size + size - skipSize } :: after)
        else inserted
      else inserted
  match after with
  | [] => overlapping
  | next :: rest =>
    if next.offset = offset + size then
      let joined := { next with packets := data ++ next.packets, size := next.size + size, offset := offset }
      match before.getLast? with
      | none => ([], joined :: rest)
      | some prev =>
        if prev.offset + prev.size = offset then
          ([], before.dropLast ++
            { prev with packets := prev.packets ++ (data ++ next.packets)
                        size := prev.size + size + next.size } :: rest)
        else ([], before ++ joined :: rest)
    else overlapping

def skipPackets : List CachedPacket → ℕ → Option (ℕ × List CachedPacket)
  | [], _ => none
  | p :: ps, start =>
    if p.payload.length ≤ start then skipPackets ps (start - p.payload.length) else some (start, p :: ps)

def takeSpans : List CachedPacket → ℕ → ℕ → List Span
  | [], _, _ => []
  | p :: ps, start, readed =>
    if readed = 0 then []
    else
      let size := min (p.payload.length - start) readed
      ⟨p, start, size⟩ :: takeSpans ps 0 (readed - size)

lemma mem_of_skipPackets {ps qs : List CachedPacket} {start k : ℕ} (h : skipPackets ps start = some (k, qs)) :
    qs ⊆ ps := by
  induction ps generalizing start with
  | nil => cases h
  | cons p ps ih =>
    rw [skipPackets] at h
    split_ifs at h
    · exact fun x hx => List.mem_cons_of_mem _ (ih h hx)
    · cases h
      exact fun _ hx => hx

lemma takeSpans_mem {ps : List CachedPacket} {start readed : ℕ} {s : Span}
    (h : s ∈ takeSpans ps start readed) : s.packet ∈ ps := by
  induction ps generalizing start readed with
  | nil => simp [takeSpans] at h
  | cons p ps ih =>
    rw [takeSpans] at h
    split_ifs at h with hr
    · simp at h
    · rcases List.mem_cons.mp h with rfl | h
      · exact List.mem_cons_self
      · exact List.mem_cons_of_mem _ (ih h)

namespace Leaf

variable {J : Type}

def create (name : String) (parent size : ℕ) : Leaf J :=
  ⟨name, parent, size, [], .create (size / blockSize + 1), []⟩

/-- The directory is not part of it. -/
def getCachePath (leaf : Leaf J) : String := leaf.name

def findBlock (leaf : Leaf J) (index : ℕ) : Option (List Range) := leaf.data.lookup index

def getStatus (leaf : Leaf J) (index : ℕ) : PieceStatus := leaf.piecesStatus.getStatus index

def setStatus (leaf : Leaf J) (index : ℕ) (status : PieceStatus) : Leaf J :=
  { leaf with piecesStatus := leaf.piecesStatus.setStatus index status }

def eraseBlock (leaf : Leaf J) (index : ℕ) : Leaf J :=
  { leaf with data := leaf.data.filter fun e => e.1 ≠ index }

def insertBlock (leaf : Leaf J) (index : ℕ) (ranges : List Range) : Leaf J :=
  { leaf with data := (index, ranges) :: leaf.data }

def addData (leaf : Leaf J) (id offset size : ℕ) (data : List CachedPacket) : List CachedPacket × Leaf J :=
  match leaf.findBlock (offset / blockSize) with
  | none =>
    ([], (leaf.insertBlock (offset / blockSize) [Range.create id offset size data]).setStatus
      (offset / blockSize) .inCache)
  | some ranges =>
    let r := addRange ranges id offset size data
    (r.1, (leaf.eraseBlock (offset / blockSize)).insertBlock (offset / blockSize) r.2)

def extractBlock (leaf : Leaf J) (index : ℕ) : ℕ × List CachedPacket × Leaf J :=
  match leaf.findBlock index with
  | none => (0, [], leaf)
  | some ranges =>
    ((ranges.head?.map Range.offset).getD 0, ranges.flatMap Range.packets,
      (leaf.eraseBlock index).setStatus index .notFound)

/-- `none` stands for `SIZE_MAX`. -/
def getFirstBlockIndex (leaf : Leaf J) : Option ℕ :=
  ((leaf.data.filter fun e => !e.2.any Range.isPinned).map Prod.fst).min?

/-- The loop of `GetData`; every turn reads at least one byte, so `readed` turns are enough. -/
def getDataLoop (leaf : Leaf J) : ℕ → ℕ → ℕ → BufferView → Option BufferView
  | 0, _, _, view => some view
  | fuel + 1, offset, readed, view =>
    if readed = 0 then some view
    else
      match leaf.findBlock (offset / blockSize) with
      | none => some view
      | some ranges =>
        match (ranges.takeWhile fun r => r.offset ≤ offset).getLast? with
        | none => some view
        | some range =>
          if offset ≤ range.offset + range.size then
            if range.packets = [] then none
            else
              match skipPackets range.packets (offset - range.offset) with
              | none => some { view with pin := view.pin ++ [range.id] }
              | some (start, packets) =>
                let spans := takeSpans packets start readed
                let n := (spans.map Span.size).sum
                getDataLoop leaf fuel (offset + n) (readed - n) ⟨view.spans ++ spans, view.pin ++ [range.id]⟩
          else some view

/-- `none`: the call throws, a range without packets was met. -/
def getData (leaf : Leaf J) (offset size : ℕ) : Option BufferView :=
  if leaf.size ≤ offset then some .empty
  else
    let readed := min size (leaf.size - offset)
    leaf.getDataLoop readed offset readed .empty

def setInFlight (leaf : Leaf J) (index : ℕ) : Option (Leaf J) :=
  if leaf.getStatus index = .notFound then some (leaf.setStatus index .inFlight) else none

def addPendingJob (leaf : Leaf J) (index : ℕ) (job : J) : Leaf J :=
  { leaf with pendingJobs := leaf.pendingJobs ++ [(index, job)] }

def takePendingJobs (leaf : Leaf J) (index : ℕ) : List J × Leaf J :=
  ((leaf.pendingJobs.filter fun e => e.1 = index).map Prod.snd,
    { leaf with pendingJobs := leaf.pendingJobs.filter fun e => e.1 ≠ index })

def mapRanges (leaf : Leaf J) (f : Range → Range) : Leaf J :=
  { leaf with data := leaf.data.map fun e => (e.1, e.2.map f) }

def pin (leaf : Leaf J) (ids : List ℕ) : Leaf J := leaf.mapRanges fun r => r.pin ids

def unpin (leaf : Leaf J) (ids : List ℕ) : Leaf J := leaf.mapRanges fun r => r.unpin ids

def packets (leaf : Leaf J) : List CachedPacket := leaf.data.flatMap fun e => e.2.flatMap Range.packets

/-- What is read through the pointers: `none` once a packet has left the cache. -/
def readSpans (leaf : Leaf J) (spans : List Span) : Option (List UInt8) :=
  if ∀ s ∈ spans, s.packet ∈ leaf.packets then some (spans.flatMap Span.bytes) else none

@[simp] lemma getStatus_create (name : String) (parent size index : ℕ) :
    (create name parent size : Leaf J).getStatus index = .notFound := PiecesStatus.getStatus_create _ _

lemma findBlock_insertBlock (leaf : Leaf J) (index : ℕ) (ranges : List Range) (j : ℕ) :
    (leaf.insertBlock index ranges).findBlock j = if j = index then some ranges else leaf.findBlock j := by
  simp only [findBlock, insertBlock, List.lookup_cons]
  by_cases h : j = index
  · simp [h]
  · rw [if_neg h, beq_false_of_ne h]

lemma findBlock_eraseBlock (leaf : Leaf J) (index j : ℕ) :
    (leaf.eraseBlock index).findBlock j = if j = index then none else leaf.findBlock j := by
  simp only [findBlock, eraseBlock]
  induction leaf.data with
  | nil => simp
  | cons e es ih =>
    obtain ⟨k, ranges⟩ := e
    by_cases hk : k = index
    · rw [List.filter_cons_of_neg (by simpa using hk), ih, List.lookup_cons]
      by_cases hj : j = index
      · rw [if_pos hj, if_pos hj]
      · have hb : (j == k) = false := by simpa [hk] using hj
        rw [if_neg hj, if_neg hj, hb]
    · rw [List.filter_cons_of_pos (by simpa using hk), List.lookup_cons, List.lookup_cons, ih]
      by_cases hj : j = index
      · have hb : (j == k) = false := by simpa [hj] using fun h => hk h.symm
        rw [hb, if_pos hj]
      · rw [if_neg hj, if_neg hj]

@[simp] lemma findBlock_setStatus (leaf : Leaf J) (index : ℕ) (status : PieceStatus) (j : ℕ) :
    (leaf.setStatus index status).findBlock j = leaf.findBlock j := rfl

lemma findBlock_mapRanges (leaf : Leaf J) (f : Range → Range) (j : ℕ) :
    (leaf.mapRanges f).findBlock j = (leaf.findBlock j).map (List.map f) := by
  simp only [findBlock, mapRanges]
  induction leaf.data with
  | nil => rfl
  | cons e es ih =>
    rw [List.map_cons, List.lookup_cons, List.lookup_cons, ih]
    cases j == e.1 <;> rfl

lemma mem_of_findBlock {leaf : Leaf J} {index : ℕ} {ranges : List Range}
    (h : leaf.findBlock index = some ranges) : (index, ranges) ∈ leaf.data := by
  obtain ⟨l₁, l₂, hl, -⟩ := List.lookup_eq_some_iff.mp h
  rw [hl]
  exact List.mem_append_right _ List.mem_cons_self

def KeysNodup (leaf : Leaf J) : Prop := (leaf.data.map Prod.fst).Nodup

lemma KeysNodup.findBlock {leaf : Leaf J} (h : leaf.KeysNodup) {index : ℕ} {ranges : List Range}
    (hm : (index, ranges) ∈ leaf.data) : leaf.findBlock index = some ranges := by
  obtain ⟨l₁, l₂, hl⟩ := List.append_of_mem hm
  refine List.lookup_eq_some_iff.mpr ⟨l₁, l₂, hl, fun e he => ?_⟩
  rw [KeysNodup, hl, List.map_append, List.map_cons] at h
  have hd := List.disjoint_of_nodup_append h
  refine bne_iff_ne.mpr fun hk => ?_
  exact hd (List.mem_map_of_mem he) (by rw [← hk]; exact List.mem_cons_self)

lemma KeysNodup.insertBlock {leaf : Leaf J} (h : leaf.KeysNodup) {index : ℕ} (ranges : List Range)
    (hn : leaf.findBlock index = none) : (leaf.insertBlock index ranges).KeysNodup := by
  rw [KeysNodup, Leaf.insertBlock, List.map_cons, List.nodup_cons]
  refine ⟨fun hm => ?_, h⟩
  obtain ⟨e, he, hk⟩ := List.mem_map.mp hm
  have := List.lookup_eq_none_iff.mp hn e he
  simp [hk] at this

lemma KeysNodup.eraseBlock {leaf : Leaf J} (h : leaf.KeysNodup) (index : ℕ) :
    (leaf.eraseBlock index).KeysNodup :=
  List.Nodup.sublist (List.filter_sublist.map _) h

lemma KeysNodup.mapRanges {leaf : Leaf J} (h : leaf.KeysNodup) (f : Range → Range) :
    (leaf.mapRanges f).KeysNodup := by
  simpa [KeysNodup, Leaf.mapRanges, Function.comp_def] using h

lemma mem_packets {leaf : Leaf J} {p : CachedPacket} :
    p ∈ leaf.packets ↔ ∃ e ∈ leaf.data, ∃ r ∈ e.2, p ∈ r.packets := by
  simp only [packets, List.mem_flatMap]

lemma packets_mapRanges (leaf : Leaf J) {f : Range → Range} (hf : ∀ r, (f r).packets = r.packets) :
    (leaf.mapRanges f).packets = leaf.packets := by
  simp only [packets, Leaf.mapRanges, List.flatMap_map, hf]

lemma getStatus_setStatus {leaf : Leaf J} {index : ℕ} (status : PieceStatus) (j : ℕ)
    (h : index < leaf.piecesStatus.size) :
    (leaf.setStatus index status).getStatus j = if j = index then status else leaf.getStatus j :=
  PiecesStatus.getStatus_setStatus _ _ _ h

lemma getStatus_setStatus_cases (leaf : Leaf J) (index : ℕ) (status : PieceStatus) (j : ℕ) :
    (leaf.setStatus index status).getStatus j = status ∨
      (leaf.setStatus index status).getStatus j = leaf.getStatus j :=
  PiecesStatus.getStatus_setStatus_cases _ _ _ _

lemma getStatus_setStatus_of_ne (leaf : Leaf J) {index j : ℕ} (status : PieceStatus) (h : j ≠ index) :
    (leaf.setStatus index status).getStatus j = leaf.getStatus j :=
  PiecesStatus.getStatus_setStatus_of_ne _ _ h

def PinsOwn (leaf : Leaf J) (pin : List ℕ) : Prop := ∀ id ∈ pin, ∃ e ∈ leaf.data, ∃ r ∈ e.2, r.id = id

lemma getDataLoop_rule {leaf : Leaf J} {P : BufferView → Prop}
    (hturn : ∀ view spans, ∀ e ∈ leaf.data, ∀ range ∈ e.2, (∀ s ∈ spans, s.packet ∈ range.packets) → P view →
      P ⟨view.spans ++ spans, view.pin ++ [range.id]⟩) {fuel : ℕ} :
    ∀ {offset readed : ℕ} {view view' : BufferView}, P view →
      leaf.getDataLoop fuel offset readed view = some view' → P view' := by
  induction fuel with
  | zero =>
    intro offset readed view view' hv h
    cases Option.some.inj h
    exact hv
  | succ fuel ih =>
    intro offset readed view view' hv h
    rw [getDataLoop] at h
    split_ifs at h with hr
    · cases h
      exact hv
    cases hf : leaf.findBlock (offset / blockSize) with
    | none =>
      rw [hf] at h
      cases h
      exact hv
    | some ranges =>
      rw [hf] at h
      simp only at h
      cases hl : (ranges.takeWhile fun r => r.offset ≤ offset).getLast? with
      | none =>
        rw [hl] at h
        cases h
        exact hv
      | some range =>
        have hmem : range ∈ ranges := (List.takeWhile_subset _) (List.mem_of_getLast? hl)
        have hkeep (spans : List Span) (hs : ∀ s ∈ spans, s.packet ∈ range.packets) :
            P ⟨view.spans ++ spans, view.pin ++ [range.id]⟩ :=
          hturn view spans _ (mem_of_findBlock hf) range hmem hs hv
        rw [hl] at h
        simp only at h
        split_ifs at h with h1 h2
        · cases hk : skipPackets range.packets (offset - range.offset) with
          | none =>
            rw [hk] at h
            cases h
            simpa only [List.append_nil] using hkeep [] fun s hs => absurd hs List.not_mem_nil
          | some q =>
            rw [hk] at h
            exact ih (hkeep _ fun s hs => mem_of_skipPackets hk (takeSpans_mem hs)) h
        · cases h
          exact hv

lemma getData_rule {leaf : Leaf J} {P : BufferView → Prop} (hempty : P .empty)
    (hturn : ∀ view spans, ∀ e ∈ leaf.data, ∀ range ∈ e.2, (∀ s ∈ spans, s.packet ∈ range.packets) → P view →
      P ⟨view.spans ++ spans, view.pin ++ [range.id]⟩) {offset size : ℕ} {view : BufferView}
    (h : leaf.getData offset size = some view) : P view := by
  rw [getData] at h
  split_ifs at h
  · cases h
    exact hempty
  · exact getDataLoop_rule hturn hempty h

lemma getData_pinsOwn {leaf : Leaf J} {offset size : ℕ} {view : BufferView}
    (h : leaf.getData offset size = some view) : leaf.PinsOwn view.pin := by
  refine getData_rule (P := fun view => leaf.PinsOwn view.pin) (fun id hid => absurd hid List.not_mem_nil)
    (fun view spans e he range hr _ hv id hid => ?_) h
  rcases List.mem_append.mp hid with hid | hid
  · exact hv id hid
  · exact ⟨e, he, range, hr, (List.mem_singleton.mp hid).symm⟩

lemma getFirstBlockIndex_unpinned {leaf : Leaf J} {index : ℕ} (h : leaf.getFirstBlockIndex = some index) :
    ∃ ranges, (index, ranges) ∈ leaf.data ∧ ∀ r ∈ ranges, r.counter ≤ 1 := by
  obtain ⟨e, he, rfl⟩ := List.mem_map.mp (List.min?_mem h)
  obtain ⟨he, hp⟩ := List.mem_filter.mp he
  refine ⟨e.2, he, fun r hr => ?_⟩
  have hn : e.2.any Range.isPinned = false := by simpa using hp
  simpa [Range.isPinned] using List.any_eq_false.mp hn r hr

end Leaf

end FastTransport.FileSystem
