import FastTransport.Lib.Bytes

/-! Records of a header and a name, padded to eight bytes, and a walk over them that patches their headers. -/

namespace FastTransport.Lib.Records

open Bytes

def encodeFields : List ℕ → List ℕ → List UInt8
  | width :: widths, n :: ns => toBytes width n ++ encodeFields widths ns
  | _, _ => []

def decodeFields : List ℕ → List UInt8 → List ℕ
  | [], _ => []
  | width :: widths, bytes => ofBytes (bytes.take width) :: decodeFields widths (bytes.drop width)

lemma length_encodeFields {widths ns : List ℕ} (h : ns.length = widths.length) :
    (encodeFields widths ns).length = widths.sum := by
  induction widths generalizing ns with
  | nil => rfl
  | cons width widths ih =>
    obtain ⟨n, ns, rfl⟩ := List.exists_cons_of_length_eq_add_one h
    rw [encodeFields, List.length_append, toBytes_length, List.sum_cons, ih (Nat.succ.inj h)]

lemma decodeFields_encodeFields {widths ns : List ℕ} (h : List.Forall₂ (fun width n => n < 256 ^ width) widths ns) :
    decodeFields widths (encodeFields widths ns) = ns := by
  induction h with
  | nil => rfl
  | @cons width n widths ns hn _ ih =>
    have htake : (toBytes width n ++ encodeFields widths ns).take width = toBytes width n :=
      List.take_left' (toBytes_length width n)
    have hdrop : (toBytes width n ++ encodeFields widths ns).drop width = encodeFields widths ns :=
      List.drop_left' (toBytes_length width n)
    rw [encodeFields, decodeFields, htake, hdrop, ofBytes_toBytes_of_lt hn, ih]

def align (n : ℕ) : ℕ := (n + 7) / 8 * 8

lemma le_align (n : ℕ) : n ≤ align n := by
  rw [align]
  omega

lemma align_le (n : ℕ) : align n ≤ n + 7 := by
  rw [align]
  omega

structure Layout (H : Type*) where
  headerSize : ℕ
  encode : H → List UInt8
  decode : List UInt8 → H
  nameLength : H → ℕ
  length_encode : ∀ h, (encode h).length = headerSize
  decode_encode : ∀ h, decode (encode h) = h

structure Walk (S H : Type*) where
  bytes : List UInt8
  pos : ℕ
  state : S
  visited : List (H × List UInt8)

namespace Layout

variable {H S : Type*} (L : Layout H)

def recordSize (nameLength : ℕ) : ℕ := align (L.headerSize + nameLength)

def record (r : H × List UInt8) : List UInt8 :=
  L.encode r.1 ++ r.2 ++ List.replicate (L.recordSize r.2.length - (L.headerSize + r.2.length)) 0

def records (rs : List (H × List UInt8)) : List UInt8 := rs.flatMap L.record

def Valid (r : H × List UInt8) : Prop := L.nameLength r.1 = r.2.length ∧ r.2 ≠ []

def walkStep (patch : S → H → List UInt8 → H × S) (w : Walk S H) : Option (Walk S H) :=
  let rest := w.bytes.drop w.pos
  if rest.length = 0 ∨ rest.length < L.headerSize then none
  else
    let header := L.decode (rest.take L.headerSize)
    if L.nameLength header = 0 ∨ rest.length < L.headerSize + L.nameLength header then none
    else
      let name := slice rest L.headerSize (L.nameLength header)
      let patched := patch w.state header name
      some ⟨overwrite w.bytes w.pos (L.encode patched.1), w.pos + L.recordSize (L.nameLength header), patched.2,
        w.visited ++ [(header, name)]⟩

def walkLoop (patch : S → H → List UInt8 → H × S) : ℕ → Walk S H → Walk S H
  | 0, w => w
  | fuel + 1, w =>
    match L.walkStep patch w with
    | none => w
    | some w' => walkLoop patch fuel w'

/-- A round goes on by a byte at least. -/
def walk (patch : S → H → List UInt8 → H × S) (s : S) (bytes : List UInt8) : Walk S H :=
  L.walkLoop patch bytes.length ⟨bytes, 0, s, []⟩

def patchAll (patch : S → H → List UInt8 → H × S) : S → List (H × List UInt8) → List (H × List UInt8) × S
  | s, [] => ([], s)
  | s, r :: rs =>
    let patched := patch s r.1 r.2
    let rest := patchAll patch patched.2 rs
    ((patched.1, r.2) :: rest.1, rest.2)

lemma length_record (r : H × List UInt8) : (L.record r).length = L.recordSize r.2.length := by
  have hle := le_align (L.headerSize + r.2.length)
  rw [record, List.length_append, List.length_append, L.length_encode, List.length_replicate, recordSize]
  omega

lemma recordSize_pos {r : H × List UInt8} (h : r.2 ≠ []) : 0 < L.recordSize r.2.length := by
  have hle := le_align (L.headerSize + r.2.length)
  have hpos := List.length_pos_of_ne_nil h
  rw [recordSize]
  omega

lemma length_le_records {rs : List (H × List UInt8)} (h : ∀ r ∈ rs, r.2 ≠ []) : rs.length ≤ (L.records rs).length := by
  induction rs with
  | nil => exact Nat.zero_le _
  | cons r rs ih =>
    have hpos := L.recordSize_pos (h r List.mem_cons_self)
    have hrest := ih fun q hq => h q (List.mem_cons_of_mem r hq)
    rw [records] at hrest ⊢
    rw [List.flatMap_cons, List.length_append, length_record, List.length_cons]
    omega

lemma walkStep_record (patch : S → H → List UInt8 → H × S) {r : H × List UInt8} (hr : L.Valid r)
    (before rest : List UInt8) (s : S) (visited : List (H × List UInt8)) :
    L.walkStep patch ⟨before ++ (L.record r ++ rest), before.length, s, visited⟩ =
      some ⟨before ++ (L.record ((patch s r.1 r.2).1, r.2) ++ rest), (before ++ L.record r).length,
        (patch s r.1 r.2).2, visited ++ [r]⟩ := by
  obtain ⟨hlen, hname⟩ := hr
  obtain ⟨header, name⟩ := r
  dsimp only at hlen hname ⊢
  have hpos := List.length_pos_of_ne_nil hname
  have hsize := L.length_record (header, name)
  have hle := le_align (L.headerSize + name.length)
  have hheader : (L.record (header, name) ++ rest).take L.headerSize = L.encode header := by
    rw [record, List.append_assoc, List.append_assoc]
    exact List.take_left' (L.length_encode header)
  have hslice : slice (L.record (header, name) ++ rest) L.headerSize name.length = name := by
    rw [slice, record, List.append_assoc, List.append_assoc, List.drop_left' (L.length_encode header)]
    exact List.take_left' rfl
  have hpatched (header' : H) : overwrite (before ++ (L.record (header, name) ++ rest)) before.length
      (L.encode header') = before ++ (L.record (header', name) ++ rest) := by
    rw [overwrite, List.take_left, List.drop_length_add_append, record, record]
    simp only [List.append_assoc]
    rw [List.drop_left' (by rw [L.length_encode, L.length_encode])]
  dsimp only [recordSize] at hsize
  simp only [walkStep, List.drop_left, hheader, L.decode_encode, hlen]
  rw [if_neg, if_neg, hslice, hpatched, List.length_append, hsize, recordSize]
  · rw [List.length_append, hsize]
    omega
  · rw [List.length_append, hsize]
    omega

lemma walkStep_end (patch : S → H → List UInt8 → H × S) (bytes : List UInt8) (s : S)
    (visited : List (H × List UInt8)) : L.walkStep patch ⟨bytes, bytes.length, s, visited⟩ = none := by
  simp [walkStep]

lemma walkLoop_records (patch : S → H → List UInt8 → H × S) {rs : List (H × List UInt8)}
    (hrs : ∀ r ∈ rs, L.Valid r) {fuel : ℕ} (hfuel : rs.length ≤ fuel) (before : List UInt8) (s : S)
    (visited : List (H × List UInt8)) :
    L.walkLoop patch fuel ⟨before ++ L.records rs, before.length, s, visited⟩ =
      ⟨before ++ L.records (patchAll patch s rs).1, (before ++ L.records rs).length, (patchAll patch s rs).2,
        visited ++ rs⟩ := by
  induction rs generalizing fuel before s visited with
  | nil =>
    simp only [records, patchAll, List.flatMap_nil, List.append_nil]
    cases fuel with
    | zero => rfl
    | succ fuel => rw [walkLoop, walkStep_end]
  | cons r rs ih =>
    obtain ⟨fuel, rfl⟩ : ∃ n, fuel = n + 1 := Nat.exists_eq_add_one.mpr (by rw [List.length_cons] at hfuel; omega)
    have hlen : (before ++ L.record r).length = (before ++ L.record ((patch s r.1 r.2).1, r.2)).length := by
      rw [List.length_append, List.length_append, length_record, length_record]
    have hrest := ih (fun q hq => hrs q (List.mem_cons_of_mem r hq)) (Nat.le_of_succ_le_succ hfuel)
      (before ++ L.record ((patch s r.1 r.2).1, r.2)) (patch s r.1 r.2).2 (visited ++ [r])
    rw [records, List.flatMap_cons, walkLoop, L.walkStep_record patch (hrs r List.mem_cons_self)]
    dsimp only
    rw [hlen, ← List.append_assoc]
    refine hrest.trans ?_
    simp only [patchAll, records, List.flatMap_cons, List.append_assoc, List.length_append, List.singleton_append,
      length_record]

theorem walk_records (patch : S → H → List UInt8 → H × S) {rs : List (H × List UInt8)} (hrs : ∀ r ∈ rs, L.Valid r)
    (s : S) :
    L.walk patch s (L.records rs) =
      ⟨L.records (patchAll patch s rs).1, (L.records rs).length, (patchAll patch s rs).2, rs⟩ := by
  have h := L.walkLoop_records patch hrs (L.length_le_records fun r hr => (hrs r hr).2) [] s []
  exact h

end Layout

end FastTransport.Lib.Records
