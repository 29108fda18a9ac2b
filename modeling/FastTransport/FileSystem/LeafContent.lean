import FastTransport.FileSystem.Ranges
import FastTransport.FileSystem.WholeBlocks
import FastTransport.Lib.Runs

/-! What a leaf's cache answers when data of a file arrives in any pieces: which range a search for a byte
finds, what an `AddData` has to meet for no byte to be lost, and what `GetData` then reads. -/

namespace FastTransport.FileSystem

open Lib.Bytes Lib.Runs

def rangeAt (ranges : List Range) (x : ℕ) : Option Range := (ranges.takeWhile fun r => r.offset ≤ x).getLast?

def Cached (ranges : List Range) (x : ℕ) : Prop := ∃ r, rangeAt ranges x = some r ∧ x < r.offset + r.size

lemma rangeAt_eq_filter {ranges : List Range} (hs : Sorted ranges) (x : ℕ) :
    rangeAt ranges x = (ranges.filter fun r => r.offset ≤ x).getLast? := by
  rw [rangeAt]
  congr 1
  induction ranges with
  | nil => rfl
  | cons r rs ih =>
    obtain ⟨hr, hrs⟩ := List.pairwise_cons.mp hs
    by_cases hx : r.offset ≤ x
    · rw [List.takeWhile_cons_of_pos (by simpa using hx), List.filter_cons_of_pos (by simpa using hx), ih hrs]
    · rw [List.takeWhile_cons_of_neg (by simpa using hx), List.filter_cons_of_neg (by simpa using hx)]
      refine (List.filter_eq_nil_iff.mpr fun a ha => ?_).symm
      have := hr a ha
      simpa using (not_le.mp hx).trans_le this

lemma rangeAt_append {l₁ l₂ : List Range} (hs : Sorted (l₁ ++ l₂)) (x : ℕ) :
    rangeAt (l₁ ++ l₂) x = (rangeAt l₂ x).or (rangeAt l₁ x) := by
  obtain ⟨h1, h2, -⟩ := List.pairwise_append.mp hs
  rw [rangeAt_eq_filter hs, rangeAt_eq_filter h1, rangeAt_eq_filter h2, List.filter_append, List.getLast?_append]

lemma rangeAt_cons {r : Range} {rs : List Range} (hs : Sorted (r :: rs)) (x : ℕ) :
    rangeAt (r :: rs) x = (rangeAt rs x).or (if r.offset ≤ x then some r else none) := by
  have h : rangeAt ([r] ++ rs) x = (rangeAt rs x).or (rangeAt [r] x) := rangeAt_append hs x
  rw [List.singleton_append] at h
  rw [h]
  congr 1
  split_ifs with hx
  · simp [rangeAt, hx]
  · simp [rangeAt, hx]

lemma rangeAt_eq_none_iff {ranges : List Range} (hs : Sorted ranges) {x : ℕ} :
    rangeAt ranges x = none ↔ ∀ r ∈ ranges, x < r.offset := by
  rw [rangeAt_eq_filter hs, List.getLast?_eq_none_iff, List.filter_eq_nil_iff]
  simp

lemma rangeAt_mem {ranges : List Range} {x : ℕ} {r : Range} (h : rangeAt ranges x = some r) :
    r ∈ ranges ∧ r.offset ≤ x := by
  have hm := List.mem_of_getLast? h
  exact ⟨(List.takeWhile_subset _) hm, by simpa using List.mem_takeWhile_imp hm⟩

section Search

variable {B A : List Range} {m : Range} {x : ℕ}

lemma rangeAt_middle (hs : Sorted (B ++ m :: A)) (x : ℕ) :
    rangeAt (B ++ m :: A) x = (rangeAt A x).or (if m.offset ≤ x then some m else rangeAt B x) := by
  have hm : Sorted (m :: A) := (List.pairwise_append.mp hs).2.1
  rw [rangeAt_append hs, rangeAt_cons hm, Option.or_assoc]
  congr 1
  split_ifs <;> rfl

lemma cached_middle_of_some {r : Range} (hs : Sorted (B ++ m :: A)) (hr : rangeAt A x = some r) :
    Cached (B ++ m :: A) x ↔ x < r.offset + r.size := by
  rw [Cached, rangeAt_middle hs, hr, Option.some_or]
  exact ⟨fun ⟨_, he, h⟩ => by cases he; exact h, fun h => ⟨r, rfl, h⟩⟩

lemma cached_middle_of_le (hs : Sorted (B ++ m :: A)) (hr : rangeAt A x = none) (hm : m.offset ≤ x) :
    Cached (B ++ m :: A) x ↔ x < m.offset + m.size := by
  rw [Cached, rangeAt_middle hs, hr, Option.none_or, if_pos hm]
  exact ⟨fun ⟨_, he, h⟩ => by cases he; exact h, fun h => ⟨m, rfl, h⟩⟩

lemma cached_middle_of_lt (hs : Sorted (B ++ m :: A)) (hr : rangeAt A x = none) (hm : x < m.offset) :
    Cached (B ++ m :: A) x ↔ Cached B x := by
  rw [Cached, rangeAt_middle hs, hr, Option.none_or, if_neg (not_le.mpr hm), Cached]

lemma cached_append_of_some {r : Range} (hs : Sorted (B ++ A)) (hr : rangeAt A x = some r) :
    Cached (B ++ A) x ↔ x < r.offset + r.size := by
  rw [Cached, rangeAt_append hs, hr, Option.some_or]
  exact ⟨fun ⟨_, he, h⟩ => by cases he; exact h, fun h => ⟨r, rfl, h⟩⟩

lemma cached_append_of_none (hs : Sorted (B ++ A)) (hr : rangeAt A x = none) :
    Cached (B ++ A) x ↔ Cached B x := by
  rw [Cached, rangeAt_append hs, hr, Option.none_or, Cached]

lemma Cached.widen {m' : Range} (hs : Sorted (B ++ m :: A)) (hs' : Sorted (B ++ m' :: A)) (ho : m'.offset ≤ m.offset)
    (he : m.offset + m.size ≤ m'.offset + m'.size) (h : Cached (B ++ m :: A) x) : Cached (B ++ m' :: A) x := by
  cases hr : rangeAt A x with
  | some r => exact (cached_middle_of_some hs' hr).mpr ((cached_middle_of_some hs hr).mp h)
  | none =>
    by_cases hm : m.offset ≤ x
    · have hx := (cached_middle_of_le hs hr hm).mp h
      exact (cached_middle_of_le hs' hr (ho.trans hm)).mpr (by omega)
    · have hx := (cached_middle_of_lt hs hr (not_le.mp hm)).mp h
      by_cases hm' : m'.offset ≤ x
      · exact (cached_middle_of_le hs' hr hm').mpr (by omega)
      · exact (cached_middle_of_lt hs' hr (not_le.mp hm')).mpr hx

lemma Cached.drop {n : Range} (hs : Sorted (B ++ m :: n :: A)) (he : n.offset + n.size ≤ m.offset + m.size)
    (h : Cached (B ++ m :: n :: A) x) : Cached (B ++ m :: A) x := by
  have hs' : Sorted (B ++ m :: A) :=
    hs.sublist ((List.sublist_cons_self n A).cons_cons m |>.append_left B)
  have hsplit : B ++ m :: n :: A = (B ++ [m]) ++ n :: A := by simp
  have hmn : m.offset ≤ n.offset :=
    (List.pairwise_cons.mp (List.pairwise_append.mp hs).2.1).1 n List.mem_cons_self
  have hsn : Sorted ((B ++ [m]) ++ n :: A) := hsplit ▸ hs
  have hsm : Sorted (B ++ m :: []) := (List.pairwise_append.mp hsn).1
  rw [hsplit] at h
  cases hr : rangeAt A x with
  | some r => exact (cached_middle_of_some hs' hr).mpr ((cached_middle_of_some hsn hr).mp h)
  | none =>
    by_cases hn : n.offset ≤ x
    · have hx := (cached_middle_of_le hsn hr hn).mp h
      exact (cached_middle_of_le hs' hr (hmn.trans hn)).mpr (by omega)
    · have hx := (cached_middle_of_lt hsn hr (not_le.mp hn)).mp h
      by_cases hm : m.offset ≤ x
      · exact (cached_middle_of_le hs' hr hm).mpr ((cached_middle_of_le hsm rfl hm).mp hx)
      · have hm := not_le.mp hm
        exact (cached_middle_of_lt hs' hr hm).mpr ((cached_middle_of_lt hsm rfl hm).mp hx)

lemma Cached.insert (hs : Sorted (B ++ A)) (hs' : Sorted (B ++ m :: A))
    (hB : Cached B x → m.offset + m.size ≤ x → ∃ r ∈ A, r.offset ≤ x) (h : Cached (B ++ A) x) :
    Cached (B ++ m :: A) x := by
  have hA : Sorted A := (List.pairwise_append.mp hs).2.1
  cases hr : rangeAt A x with
  | some r => exact (cached_middle_of_some hs' hr).mpr ((cached_append_of_some hs hr).mp h)
  | none =>
    have hx := (cached_append_of_none hs hr).mp h
    by_cases hm : m.offset ≤ x
    · refine (cached_middle_of_le hs' hr hm).mpr (not_le.mp fun hend => ?_)
      obtain ⟨r, hrA, hrx⟩ := hB hx hend
      exact absurd ((rangeAt_eq_none_iff hA).mp hr r hrA) (not_lt.mpr hrx)
    · exact (cached_middle_of_lt hs' hr (not_le.mp hm)).mpr hx

lemma rangeAt_of_le {l : List Range} (h : ∀ r ∈ l, r.offset ≤ x) : rangeAt l x = l.getLast? := by
  rw [rangeAt, List.takeWhile_eq_self_iff.mpr fun r hr => by simpa using h r hr]

end Search

structure HoldsSlice (content : List UInt8) (r : Range) : Prop where
  nonempty : r.packets ≠ []
  bytes : payloads r.packets = slice content r.offset r.size
  length : (payloads r.packets).length = r.size

/-- The ranges that are still there behind the new one. -/
def keptBehind (before after : List Range) (offset size : ℕ) : List Range :=
  match before, after with
  | [], next :: rest =>
    if next.offset ≠ offset + size ∧ next.offset + next.size ≤ offset + size then rest else next :: rest
  | _, after => after

/-- How many packets `AddData` takes the overlap with `prev` to fill. -/
def skippedPackets (prev : Range) (offset : ℕ) : ℕ :=
  let payloadSize := (prev.packets.head?.map fun p => p.payload.length).getD 0
  (prev.offset + prev.size - offset + payloadSize - 1) / payloadSize

def SkipsOverlap (before after : List Range) (offset size : ℕ) (data : List CachedPacket) : Prop :=
  ∀ prev, before.getLast? = some prev → offset < prev.offset + prev.size → 1 < prev.packets.length →
    (∀ next, after.head? = some next → next.offset ≠ offset + size) →
    (payloads (data.take (skippedPackets prev offset))).length = prev.offset + prev.size - offset

/-- What an `AddData` has to meet between the ranges that start at or before its offset and those behind. -/
structure FitsBetween (before after : List Range) (offset size : ℕ) (data : List CachedPacket) : Prop where
  behind : ∀ x, offset ≤ x → x < offset + size → (∃ r ∈ keptBehind before after offset size, r.offset ≤ x) →
    Cached (before ++ after) x
  aligned : SkipsOverlap before after offset size data
  refused : ∀ prev, before.getLast? = some prev → prev.offset = offset → prev.size ≠ 0 → prev.packets.length ≤ 1 →
    (∀ next, after.head? = some next → next.offset ≠ offset + size) →
    ∀ x, offset ≤ x → x < offset + size → Cached (before ++ after) x
  shadowed : ∀ prev, before.getLast? = some prev → prev.offset ≠ offset → prev.packets.length ≤ 1 →
    (∀ next, after.head? = some next → next.offset ≠ offset + size) →
    ∀ x, offset + size ≤ x → x < prev.offset + prev.size → ∃ r ∈ after, r.offset ≤ x

def Fits (ranges : List Range) (offset size : ℕ) (data : List CachedPacket) : Prop :=
  FitsBetween (ranges.takeWhile fun r => r.offset ≤ offset) (ranges.dropWhile fun r => r.offset ≤ offset) offset size data

section

variable {before after : List Range} {id offset size : ℕ} {data : List CachedPacket}
  {result : List CachedPacket × List Range}

lemma keptBehind_eq_after (h : before = [] → ∀ next, after.head? = some next →
    next.offset = offset + size ∨ offset + size < next.offset + next.size) : keptBehind before after offset size = after := by
  cases before with
  | cons r rs => rfl
  | nil =>
    cases after with
    | nil => rfl
    | cons next rest =>
      refine if_neg fun hc => ?_
      have := h rfl next rfl
      omega

lemma sorted_of_offsets {l l' : List Range} (h : l.map Range.offset = l'.map Range.offset) (hs : Sorted l) : Sorted l' :=
  sorted_iff.mpr (h ▸ sorted_iff.mp hs)

lemma payloads_take_drop (ps : List CachedPacket) (k : ℕ) :
    payloads (ps.take k) ++ payloads (ps.drop k) = payloads ps := by
  rw [← payloads_append, List.take_append_drop]

lemma SkipsOverlap.skip_le {prev : Range} (hskips : SkipsOverlap before after offset size data)
    (hlength : (payloads data).length = size) (hp : before.getLast? = some prev)
    (hover : offset < prev.offset + prev.size) (hlen : 1 < prev.packets.length)
    (hadj : ∀ next, after.head? = some next → next.offset ≠ offset + size) :
    prev.offset + prev.size - offset ≤ size := by
  have htake := hskips prev hp hover hlen hadj
  have hsplit := congrArg List.length (payloads_take_drop data (skippedPackets prev offset))
  rw [List.length_append] at hsplit
  omega

lemma AddBranch.cached_mono (hs : Sorted (before ++ after)) (hs' : Sorted result.2)
    (hle : ∀ r ∈ before, r.offset ≤ offset) (hlt : ∀ r ∈ after, offset < r.offset)
    (hlength : (payloads data).length = size) (hfits : FitsBetween before after offset size data)
    (h : AddBranch before after id offset size data result) {x : ℕ} (hx : Cached (before ++ after) x) : Cached result.2 x := by
  cases h with
  | bridge init prev next rest hb ha hadj hend =>
    subst hb ha
    rw [List.append_assoc, List.singleton_append] at hs hx
    have hw : Cached (init ++ { prev with packets := prev.packets ++ (data ++ next.packets)
                                          size := prev.size + size + next.size } :: next :: rest) x :=
      hx.widen hs (sorted_of_offsets (by simp) hs) le_rfl (by simp only; omega)
    exact hw.drop (sorted_of_offsets (by simp) hs) (by simp only; omega)
  | join next rest ha hadj _ =>
    subst ha
    exact hx.widen hs hs' (hlt next List.mem_cons_self).le (by simp only; omega)
  | replace next rest hb ha _ _ hend =>
    subst hb ha
    have hsort : Sorted ([] ++ Range.create id offset size data :: next :: rest) :=
      hs.insert (fun r hr => absurd hr List.not_mem_nil) fun r hr => (hlt r hr).le
    have hi := hx.insert (m := Range.create id offset size data) hs hsort fun ⟨_, hr, _⟩ _ => by cases hr
    exact hi.drop hsort hend
  | append init prev hb hend _ =>
    subst hb
    rw [List.append_assoc, List.singleton_append] at hs hx
    exact hx.widen hs hs' le_rfl (by simp only; omega)
  | overlap init prev payloadSize skipped hb hover hlen hp hk hadj =>
    subst hb
    have hskip := hfits.aligned.skip_le hlength List.getLast?_concat hover hlen hadj
    rw [List.append_assoc, List.singleton_append] at hs hx
    exact hx.widen hs hs' le_rfl (by simp only; omega)
  | refuse => exact hx
  | insert hprev hadj _ =>
    refine hx.insert hs hs' fun ⟨r, hr, hlast⟩ hend => ?_
    have hend' : offset + size ≤ x := hend
    rw [rangeAt_of_le fun r hr => (hle r hr).trans (by omega)] at hr
    obtain ⟨hne, h | ⟨-, hlen⟩⟩ := hprev r hr
    · omega
    · exact hfits.shadowed r hr hne hlen hadj x hend hlast

lemma Cached.of_new {B A : List Range} {m : Range} {x : ℕ} (hs : Sorted (B ++ m :: A)) (hm : m.offset ≤ x)
    (hx : x < m.offset + m.size) (hbehind : (∃ r ∈ A, r.offset ≤ x) → Cached (B ++ m :: A) x) :
    Cached (B ++ m :: A) x := by
  cases hr : rangeAt A x with
  | some r => exact hbehind ⟨r, rangeAt_mem hr⟩
  | none => exact (cached_middle_of_le hs hr hm).mpr hx

lemma AddBranch.cached_new (hs : Sorted (before ++ after)) (hs' : Sorted result.2)
    (hle : ∀ r ∈ before, r.offset ≤ offset) (hlt : ∀ r ∈ after, offset < r.offset)
    (hlength : (payloads data).length = size) (hfits : FitsBetween before after offset size data)
    (h : AddBranch before after id offset size data result) {x : ℕ} (hx : offset ≤ x) (hx' : x < offset + size) :
    Cached result.2 x := by
  have hbehind : (∃ r ∈ keptBehind before after offset size, r.offset ≤ x) → Cached result.2 x := fun hr =>
    h.cached_mono hs hs' hle hlt hlength hfits (hfits.behind x hx hx' hr)
  cases h with
  | bridge init prev next rest hb ha hadj hend =>
    subst hb ha
    refine Cached.of_new hs' (by simp only; omega) (by simp only; omega) fun ⟨r, hr, hrx⟩ => hbehind ?_
    rw [keptBehind_eq_after fun h => absurd h (by simp)]
    exact ⟨r, List.mem_cons_of_mem _ hr, hrx⟩
  | join next rest ha hadj _ =>
    subst ha
    refine Cached.of_new hs' hx (by simp only; omega) fun ⟨r, hr, hrx⟩ => hbehind ?_
    rw [keptBehind_eq_after fun _ n hn => by cases hn; exact Or.inl hadj]
    exact ⟨r, List.mem_cons_of_mem _ hr, hrx⟩
  | replace next rest hb ha hne _ hend =>
    subst hb ha
    rw [keptBehind, if_pos ⟨hne, hend⟩] at hbehind
    exact Cached.of_new (B := []) hs' hx hx' hbehind
  | append init prev hb hend _ =>
    subst hb
    have hin := hle prev (List.mem_append_right _ List.mem_cons_self)
    rw [keptBehind_eq_after fun h => absurd h (by simp)] at hbehind
    exact Cached.of_new hs' (hin.trans hx) (by simp only; omega) hbehind
  | overlap init prev payloadSize skipped hb hover hlen hp hk hadj =>
    subst hb
    have hin := hle prev (List.mem_append_right _ List.mem_cons_self)
    have hskip := hfits.aligned.skip_le hlength List.getLast?_concat hover hlen hadj
    rw [keptBehind_eq_after fun h => absurd h (by simp)] at hbehind
    exact Cached.of_new hs' (hin.trans hx) (by simp only; omega) hbehind
  | refuse init prev hb ho hsize hlen hadj =>
    subst hb
    exact hfits.refused prev List.getLast?_concat ho hsize hlen hadj x hx hx'
  | insert hprev hadj hnot =>
    rw [keptBehind_eq_after fun h n hn => Or.inr (hnot h n hn (hlt n (List.mem_of_head? hn)).le)] at hbehind
    exact Cached.of_new hs' hx hx' hbehind

lemma HoldsSlice.append {content : List UInt8} {r : Range} {ps : List CachedPacket} {n : ℕ}
    (h : HoldsSlice content r) (hp : payloads ps = slice content (r.offset + r.size) n)
    (hl : (payloads ps).length = n) :
    HoldsSlice content { r with packets := r.packets ++ ps, size := r.size + n } where
  nonempty := by simp [h.nonempty]
  bytes := by rw [payloads_append, h.bytes, hp, ← slice_append]
  length := by rw [payloads_append, List.length_append, h.length, hl]

lemma payloads_drop_slice {content : List UInt8} {prev : Range} {k : ℕ}
    (hbytes : payloads data = slice content offset size)
    (htake : (payloads (data.take k)).length = prev.offset + prev.size - offset) (ho : offset < prev.offset + prev.size) :
    payloads (data.drop k) =
      slice content (prev.offset + prev.size) (size - (prev.offset + prev.size - offset)) := by
  have hdrop : payloads (data.drop k) = (payloads data).drop (prev.offset + prev.size - offset) := by
    rw [← payloads_take_drop data k, List.drop_left' htake]
  rw [hdrop, hbytes, slice, slice, List.drop_take, List.drop_drop, Nat.add_sub_cancel' ho.le]

lemma AddBranch.holdsSlice {content : List UInt8} (hdata : data ≠ []) (hbytes : payloads data = slice content offset size)
    (hlength : (payloads data).length = size) (hold : ∀ r ∈ before ++ after, HoldsSlice content r)
    (hskips : SkipsOverlap before after offset size data) (h : AddBranch before after id offset size data result) :
    ∀ r ∈ result.2, HoldsSlice content r := by
  have hnew : HoldsSlice content (Range.create id offset size data) := ⟨hdata, hbytes, hlength⟩
  have hbefore : ∀ r ∈ before, HoldsSlice content r := fun r hr => hold r (List.mem_append_left _ hr)
  have hafter : ∀ r ∈ after, HoldsSlice content r := fun r hr => hold r (List.mem_append_right _ hr)
  cases h with
  | bridge init prev next rest hb ha hadj hend =>
    subst hb ha
    have hprev := hbefore prev (List.mem_append_right _ List.mem_cons_self)
    have hnext := hafter next List.mem_cons_self
    refine forall_mem_middle (fun r hr => hbefore r (List.mem_append_left _ hr)) ?_
      fun r hr => hafter r (List.mem_cons_of_mem _ hr)
    rw [Nat.add_assoc]
    refine hprev.append ?_ (by rw [payloads_append, List.length_append, hlength, hnext.length])
    rw [payloads_append, hbytes, hnext.bytes, hend, hadj, ← slice_append]
  | join next rest ha hadj _ =>
    subst ha
    have hnext := hafter next List.mem_cons_self
    refine forall_mem_middle hbefore ⟨by simp [hdata], ?_, ?_⟩ fun r hr => hafter r (List.mem_cons_of_mem _ hr)
    · simp only [payloads_append]
      rw [hbytes, hnext.bytes, hadj, ← slice_append, Nat.add_comm]
    · simp only [payloads_append, List.length_append]
      rw [hlength, hnext.length, Nat.add_comm]
  | replace next rest hb ha _ _ _ =>
    subst hb ha
    exact forall_mem_middle (B := []) hbefore hnew fun r hr => hafter r (List.mem_cons_of_mem _ hr)
  | append init prev hb hend _ =>
    subst hb
    have hprev := hbefore prev (List.mem_append_right _ List.mem_cons_self)
    exact forall_mem_middle (fun r hr => hbefore r (List.mem_append_left _ hr))
      (hprev.append (by rw [hbytes, hend]) hlength) hafter
  | overlap init prev payloadSize skipped hb hover hlen hp hk hadj =>
    subst hb hp hk
    have hprev := hbefore prev (List.mem_append_right _ List.mem_cons_self)
    have htake := hskips prev List.getLast?_concat hover hlen hadj
    have hskip := hskips.skip_le hlength List.getLast?_concat hover hlen hadj
    have hdrop := payloads_drop_slice hbytes htake hover
    have hrest : (payloads (data.drop (skippedPackets prev offset))).length =
        size - (prev.offset + prev.size - offset) := by
      have hsplit := congrArg List.length (payloads_take_drop data (skippedPackets prev offset))
      rw [List.length_append, htake, hlength] at hsplit
      omega
    refine forall_mem_middle (fun r hr => hbefore r (List.mem_append_left _ hr)) ?_ hafter
    rw [Nat.add_sub_assoc hskip]
    exact hprev.append hdrop hrest
  | refuse => exact hold
  | insert => exact forall_mem_middle hbefore hnew hafter

lemma cached_of_cached_middle {L B A : List Range} {m : Range} {x : ℕ} (hl : Sorted (L ++ A))
    (hs : Sorted (B ++ m :: A)) (hA : ∃ r ∈ A, r.offset ≤ x) (h : Cached (B ++ m :: A) x) : Cached (L ++ A) x := by
  cases hr : rangeAt A x with
  | some r => exact (cached_append_of_some hl hr).mpr ((cached_middle_of_some hs hr).mp h)
  | none =>
    obtain ⟨r, hmem, hle⟩ := hA
    exact absurd ((rangeAt_eq_none_iff (List.pairwise_append.mp hl).2.1).mp hr r hmem) (not_lt.mpr hle)

lemma AddBranch.behind_of_cached (hs : Sorted (before ++ after)) (hs' : Sorted result.2)
    (hlt : ∀ r ∈ after, offset < r.offset) (h : AddBranch before after id offset size data result) {x : ℕ}
    (hx : x < offset + size) (hk : ∃ r ∈ keptBehind before after offset size, r.offset ≤ x)
    (hc : Cached result.2 x) : Cached (before ++ after) x := by
  have hnone {next : Range} {rest : List Range} (ha : after = next :: rest) (hadj : next.offset = offset + size)
      (hr : ∃ r ∈ after, r.offset ≤ x) : False := by
    obtain ⟨r, hr, hrx⟩ := hr
    have hafter : Sorted after := (List.pairwise_append.mp hs).2.1
    rw [ha] at hr hafter
    rcases List.mem_cons.mp hr with rfl | hr
    · omega
    · have := (List.pairwise_cons.mp hafter).1 r hr
      omega
  cases h with
  | bridge init prev next rest hb ha hadj _ =>
    rw [keptBehind_eq_after fun h => absurd h (by simp [hb])] at hk
    exact (hnone ha hadj hk).elim
  | join next rest ha hadj _ =>
    rw [keptBehind_eq_after fun _ n hn => by rw [ha] at hn; cases hn; exact Or.inl hadj] at hk
    exact (hnone ha hadj hk).elim
  | replace next rest hb ha hne _ hend =>
    subst hb ha
    rw [keptBehind, if_pos ⟨hne, hend⟩] at hk
    exact cached_of_cached_middle (L := [next]) (B := []) hs hs' hk hc
  | append init prev hb _ _ =>
    rw [keptBehind_eq_after fun h => absurd h (by simp [hb])] at hk
    exact cached_of_cached_middle hs hs' hk hc
  | overlap init prev payloadSize skipped hb _ _ _ _ _ =>
    rw [keptBehind_eq_after fun h => absurd h (by simp [hb])] at hk
    exact cached_of_cached_middle hs hs' hk hc
  | refuse => exact hc
  | insert hprev hadj hnot =>
    rw [keptBehind_eq_after fun h n hn => Or.inr (hnot h n hn (hlt n (List.mem_of_head? hn)).le)] at hk
    exact cached_of_cached_middle hs hs' hk hc

lemma AddBranch.of_last {prev : Range} (hp : before.getLast? = some prev)
    (hadj : ∀ next, after.head? = some next → next.offset ≠ offset + size)
    (h : AddBranch before after id offset size data result) :
    prev.offset + prev.size = offset ∨
    (1 < prev.packets.length ∧ ∃ init, before = init ++ [prev] ∧ result = (data.take (skippedPackets prev offset),
      init ++ { prev with packets := prev.packets ++ data.drop (skippedPackets prev offset)
                          size := prev.size + size - (prev.offset + prev.size - offset) } :: after)) ∨
    (prev.offset = offset ∧ prev.packets.length ≤ 1 ∧ result = ([], before ++ after)) ∨
    (prev.offset ≠ offset ∧ (prev.offset + prev.size < offset ∨ prev.packets.length ≤ 1) ∧
      result = ([], before ++ Range.create id offset size data :: after)) := by
  cases h with
  | bridge init prev' next rest _ ha h _ => exact absurd h (hadj next (by rw [ha]; rfl))
  | join next rest ha h _ => exact absurd h (hadj next (by rw [ha]; rfl))
  | replace next rest hb _ _ _ _ => simp [hb] at hp
  | append init prev' hb hend _ =>
    rw [hb, List.getLast?_concat] at hp
    cases hp
    exact Or.inl hend
  | overlap init prev' payloadSize skipped hb _ hlen hpay hk _ =>
    rw [hb, List.getLast?_concat] at hp
    cases hp
    subst hpay hk
    exact Or.inr (Or.inl ⟨hlen, init, hb, rfl⟩)
  | refuse init prev' hb ho _ hlen _ =>
    rw [hb, List.getLast?_concat] at hp
    cases hp
    exact Or.inr (Or.inr (Or.inl ⟨ho, hlen, rfl⟩))
  | insert hprev _ _ =>
    obtain ⟨hne, h⟩ := hprev prev hp
    exact Or.inr (Or.inr (Or.inr ⟨hne, h.imp_right And.right, rfl⟩))

lemma AddBranch.fits {content : List UInt8} (hs : Sorted (before ++ after)) (hs' : Sorted result.2)
    (hle : ∀ r ∈ before, r.offset ≤ offset) (hlt : ∀ r ∈ after, offset < r.offset)
    (hlength : (payloads data).length = size) (hold : ∀ r ∈ before ++ after, HoldsSlice content r)
    (h : AddBranch before after id offset size data result) (hnew : ∀ r ∈ result.2, HoldsSlice content r)
    (hcached : ∀ x, Cached (before ++ after) x ∨ offset ≤ x ∧ x < offset + size → Cached result.2 x) :
    FitsBetween before after offset size data := by
  refine ⟨fun x hx hx' hk => h.behind_of_cached hs hs' hlt hx' hk (hcached x (Or.inr ⟨hx, hx'⟩)), ?_, ?_, ?_⟩
  · intro prev hp hover hlen hadj
    obtain hend | ⟨-, init, hb, rfl⟩ | ⟨-, hshort, -⟩ | ⟨-, hshort, -⟩ := h.of_last hp hadj
    · omega
    · have hprev := (hold prev (List.mem_append_left _ (List.mem_of_getLast? hp))).length
      have hgrown := (hnew _ (List.mem_append_right _ List.mem_cons_self)).length
      have hsplit := congrArg List.length (payloads_take_drop data (skippedPackets prev offset))
      have hin := hle prev (List.mem_of_getLast? hp)
      simp only [payloads_append, List.length_append] at hgrown hsplit
      omega
    · omega
    · omega
  · intro prev hp ho hsize hlen hadj x hx hx'
    obtain hend | ⟨hmany, -⟩ | ⟨-, -, rfl⟩ | ⟨hne, -⟩ := h.of_last hp hadj
    · omega
    · omega
    · exact hcached x (Or.inr ⟨hx, hx'⟩)
    · exact absurd ho hne
  · intro prev hp hne hlen hadj x hx hx'
    by_contra hnone
    have hafter : rangeAt after x = none :=
      (rangeAt_eq_none_iff (List.pairwise_append.mp hs).2.1).mpr fun r hr => not_le.mp fun h => hnone ⟨r, hr, h⟩
    obtain hend | ⟨hmany, -⟩ | ⟨ho, -⟩ | ⟨-, -, rfl⟩ := h.of_last hp hadj
    · omega
    · omega
    · exact absurd ho hne
    · have hold : Cached (before ++ after) x := (cached_append_of_none hs hafter).mpr
        ⟨prev, by rw [rangeAt_of_le fun r hr => (hle r hr).trans (by omega), hp], hx'⟩
      have hx := (cached_middle_of_le (m := Range.create id offset size data) hs' hafter (by
        change offset ≤ x
        omega)).mp (hcached x (Or.inl hold))
      exact absurd hx (not_lt.mpr ‹_›)

end

structure Faithful (content : List UInt8) (ranges : List Range) : Prop where
  sorted : Sorted ranges
  holds : ∀ r ∈ ranges, HoldsSlice content r

lemma Faithful.addRange_iff {content : List UInt8} {ranges : List Range} (h : Faithful content ranges) (id : ℕ)
    {offset size : ℕ} {data : List CachedPacket} (hdata : data ≠ []) (hbytes : payloads data = slice content offset size)
    (hlength : (payloads data).length = size) :
    (Faithful content (addRange ranges id offset size data).2 ∧
      ∀ x, Cached ranges x ∨ offset ≤ x ∧ x < offset + size → Cached (addRange ranges id offset size data).2 x) ↔
      Fits ranges offset size data := by
  have hsplit := List.takeWhile_append_dropWhile (p := fun r : Range => decide (r.offset ≤ offset)) (l := ranges)
  have hle : ∀ r ∈ ranges.takeWhile fun r => r.offset ≤ offset, r.offset ≤ offset := fun r hr => by
    simpa using List.mem_takeWhile_imp hr
  have hlt : ∀ r ∈ ranges.dropWhile fun r => r.offset ≤ offset, offset < r.offset := h.sorted.lt_dropWhile
  have hbranch := addRange_branch h.sorted id offset size data rfl rfl
  have hsorted := addRange_sorted h.sorted id offset size data
  obtain ⟨hs, hholds⟩ := h
  rw [Fits]
  generalize (ranges.takeWhile fun r => r.offset ≤ offset) = before at *
  generalize (ranges.dropWhile fun r => r.offset ≤ offset) = after at *
  subst hsplit
  constructor
  · rintro ⟨hf, hc⟩
    exact hbranch.fits hs hsorted hle hlt hlength hholds hf.holds hc
  · intro hfits
    refine ⟨⟨hsorted, hbranch.holdsSlice hdata hbytes hlength hholds hfits.aligned⟩, fun x hx => ?_⟩
    rcases hx with hx | ⟨hx, hx'⟩
    · exact hbranch.cached_mono hs hsorted hle hlt hlength hfits hx
    · exact hbranch.cached_new hs hsorted hle hlt hlength hfits hx hx'

lemma skipPackets_eq_none {ps : List CachedPacket} {start : ℕ} (h : (payloads ps).length ≤ start) :
    skipPackets ps start = none := by
  induction ps generalizing start with
  | nil => rfl
  | cons p ps ih =>
    rw [payloads_cons, List.length_append] at h
    rw [skipPackets, if_pos (by omega)]
    exact ih (by omega)

namespace Leaf

variable {J : Type}

def Cached (leaf : Leaf J) (x : ℕ) : Prop :=
  ∃ ranges, leaf.findBlock (x / blockSize) = some ranges ∧ FileSystem.Cached ranges x

structure CachesContent (leaf : Leaf J) (content : List UInt8) : Prop where
  size : leaf.size = content.length
  blocks : ∀ index ranges, leaf.findBlock index = some ranges → Faithful content ranges

lemma getDataLoop_read {leaf : Leaf J} {content : List UInt8} {ranges : List Range} {range : Range} {offset readed : ℕ}
    (hf : leaf.findBlock (offset / blockSize) = some ranges) (hr : rangeAt ranges offset = some range)
    (hh : HoldsSlice content range) (hlt : offset < range.offset + range.size) (h0 : readed ≠ 0) :
    ∃ spans n, n ≠ 0 ∧ n ≤ readed ∧ spans.flatMap Span.bytes = slice content offset n ∧
      ∀ fuel view, leaf.getDataLoop (fuel + 1) offset readed view =
        leaf.getDataLoop fuel (offset + n) (readed - n) ⟨view.spans ++ spans, view.pin ++ [range.id]⟩ := by
  have hin := (rangeAt_mem hr).2
  have hstart : offset - range.offset < (payloads range.packets).length := by
    rw [hh.length]
    omega
  obtain ⟨k, p, rest, hskip, hk, -, hdrop⟩ := skipPackets_spec hstart
  have hsum : ((takeSpans (p :: rest) k readed).map Span.size).sum = _ := takeSpans_cons_size hk h0
  have hrest : (payloads (p :: rest)).length - k = range.size - (offset - range.offset) := by
    rw [← List.length_drop, hdrop, List.length_drop, hh.length]
  rw [hrest] at hsum
  refine ⟨takeSpans (p :: rest) k readed, min readed (range.size - (offset - range.offset)), ?_, ?_, ?_,
    fun fuel view => ?_⟩
  · omega
  · omega
  · rw [takeSpans_cons_bytes hk h0, hdrop, hh.bytes]
    change slice (slice content range.offset range.size) _ readed = _
    rw [slice_slice, Nat.add_sub_cancel' hin]
  · rw [getDataLoop, if_neg h0, hf]
    change rangeAt ranges offset = some range at hr
    rw [rangeAt] at hr
    simp only [hr]
    rw [if_pos (by omega), if_neg hh.nonempty, hskip]
    simp only [hsum]

lemma getDataLoop_stop {leaf : Leaf J} {content : List UInt8} (hl : leaf.CachesContent content) {offset : ℕ}
    (hn : ¬ leaf.Cached offset) (readed : ℕ) :
    ∀ fuel view, ∃ view', leaf.getDataLoop fuel offset readed view = some view' ∧ view'.spans = view.spans := by
  intro fuel view
  cases fuel with
  | zero => exact ⟨view, rfl, rfl⟩
  | succ fuel =>
    rw [getDataLoop]
    split_ifs with h0
    · exact ⟨view, rfl, rfl⟩
    cases hf : leaf.findBlock (offset / blockSize) with
    | none => exact ⟨view, rfl, rfl⟩
    | some ranges =>
      simp only
      cases hr : (ranges.takeWhile fun r => r.offset ≤ offset).getLast? with
      | none => exact ⟨view, rfl, rfl⟩
      | some range =>
        have hrange := rangeAt_mem (x := offset) hr
        have hh := (hl.blocks _ _ hf).holds range hrange.1
        have hend : range.offset + range.size ≤ offset :=
          not_lt.mp fun hlt => hn ⟨ranges, hf, range, hr, hlt⟩
        simp only
        split_ifs with h1 h2
        · exact absurd h2 hh.nonempty
        · rw [skipPackets_eq_none (by rw [hh.length]; omega)]
          exact ⟨_, rfl, rfl⟩
        · exact ⟨view, rfl, rfl⟩

lemma getDataLoop_prefix {leaf : Leaf J} {content : List UInt8} (hl : leaf.CachesContent content) {fuel : ℕ} :
    ∀ (offset readed : ℕ) (view : BufferView), readed ≤ fuel →
      ∃ view' total, leaf.getDataLoop fuel offset readed view = some view' ∧ total ≤ readed ∧
        view'.bytes = view.bytes ++ slice content offset total ∧ (readed ≠ 0 → leaf.Cached offset → total ≠ 0) := by
  induction fuel with
  | zero =>
    intro offset readed view hfuel
    exact ⟨view, 0, rfl, Nat.zero_le _, by simp [slice], fun h => absurd (Nat.le_zero.mp hfuel) h⟩
  | succ fuel ih =>
    intro offset readed view hfuel
    by_cases h0 : readed = 0
    · exact ⟨view, 0, by rw [getDataLoop, if_pos h0], Nat.zero_le _, by simp [slice], fun h => absurd h0 h⟩
    by_cases hc : leaf.Cached offset
    · obtain ⟨ranges, hf, range, hr, hlt⟩ := hc
      have hh := (hl.blocks _ _ hf).holds range (rangeAt_mem hr).1
      obtain ⟨spans, n, hn, hle, hbytes, hloop⟩ := getDataLoop_read hf hr hh hlt h0
      obtain ⟨view', total, hview, ht, hb, -⟩ :=
        ih (offset + n) (readed - n) ⟨view.spans ++ spans, view.pin ++ [range.id]⟩ (by omega)
      refine ⟨view', n + total, by rw [hloop, hview], by omega, ?_, fun _ _ => by omega⟩
      rw [hb, BufferView.bytes, BufferView.bytes, List.flatMap_append, hbytes, slice_append, List.append_assoc]
    · obtain ⟨view', hview, hspans⟩ := getDataLoop_stop hl hc readed (fuel + 1) view
      refine ⟨view', 0, hview, Nat.zero_le _, ?_, fun _ h => absurd h hc⟩
      rw [BufferView.bytes, hspans, BufferView.bytes, slice, List.take_zero, List.append_nil]

lemma CachesContent.getData {leaf : Leaf J} {content : List UInt8} (hl : leaf.CachesContent content) (offset size : ℕ) :
    ∃ view, leaf.getData offset size = some view ∧ view.bytes <+: slice content offset size ∧
      (0 < size → offset < content.length → leaf.Cached offset → view.bytes ≠ []) := by
  rw [Leaf.getData]
  split_ifs with hin
  · refine ⟨.empty, rfl, List.nil_prefix, fun _ ho _ => ?_⟩
    rw [hl.size] at hin
    omega
  · obtain ⟨view, total, hview, ht, hbytes, hpos⟩ :=
      getDataLoop_prefix hl offset (min size (leaf.size - offset)) .empty le_rfl
    have hview' : view.bytes = slice content offset total := hbytes
    refine ⟨view, hview, ?_, fun hs ho hc => ?_⟩
    · rw [hview', ← Nat.add_sub_cancel' (show total ≤ size by omega), slice_append]
      exact List.prefix_append _ _
    · have hlen := slice_length_eq content offset total
      have := hpos (by omega) hc
      rw [hview']
      intro h
      rw [h, List.length_nil] at hlen
      omega

end Leaf

structure Addition where
  id : ℕ
  offset : ℕ
  size : ℕ
  data : List CachedPacket
  deriving DecidableEq, Repr

namespace Addition

variable {J : Type}

structure Of (content : List UInt8) (a : Addition) : Prop where
  nonempty : a.data ≠ []
  bytes : payloads a.data = slice content a.offset a.size
  length : (payloads a.data).length = a.size
  inside : a.offset % blockSize + a.size ≤ blockSize

def Fits (leaf : Leaf J) (a : Addition) : Prop :=
  ∀ ranges, leaf.findBlock (a.offset / blockSize) = some ranges → FileSystem.Fits ranges a.offset a.size a.data

def step (leaf : Leaf J) (a : Addition) : Option (Leaf J) := some (leaf.addData a.id a.offset a.size a.data).2

lemma Of.block_eq {content : List UInt8} {a : Addition} (h : a.Of content) {x : ℕ} (hx : a.offset ≤ x)
    (hx' : x < a.offset + a.size) : x / blockSize = a.offset / blockSize := by
  have hin := h.inside
  have hdiv := Nat.div_add_mod a.offset blockSize
  refine Nat.div_eq_of_lt_le ?_ ?_
  · rw [Nat.mul_comm]
    omega
  · rw [Nat.mul_comm, Nat.mul_succ]
    omega

lemma Of.lt_length {content : List UInt8} {a : Addition} (h : a.Of content) {x : ℕ} (hx : a.offset ≤ x)
    (hx' : x < a.offset + a.size) : x < content.length := by
  have hlen := slice_length_eq content a.offset a.size
  rw [← h.bytes, h.length] at hlen
  omega

lemma of_mem {content : List UInt8} {leaf leaf' : Leaf J} {adds : List Addition}
    (h : Path step (fun l a => a.Of content ∧ a.Fits l) leaf adds leaf') : ∀ a ∈ adds, a.Of content := by
  induction h with
  | nil _ => exact fun a ha => absurd ha List.not_mem_nil
  | cons hok _ _ ih =>
    intro a ha
    rcases List.mem_cons.mp ha with rfl | ha
    · exact hok.1
    · exact ih a ha

end Addition

namespace Leaf

variable {J : Type}

lemma size_addData (leaf : Leaf J) (id offset size : ℕ) (data : List CachedPacket) :
    (leaf.addData id offset size data).2.size = leaf.size := by
  rw [addData]
  cases leaf.findBlock (offset / blockSize) <;> rfl

lemma findBlock_addData (leaf : Leaf J) (id offset size : ℕ) (data : List CachedPacket) (j : ℕ) :
    (leaf.addData id offset size data).2.findBlock j =
      if j = offset / blockSize then
        some ((leaf.findBlock (offset / blockSize)).elim [Range.create id offset size data]
          fun ranges => (addRange ranges id offset size data).2)
      else leaf.findBlock j := by
  rw [addData]
  cases hf : leaf.findBlock (offset / blockSize) with
  | none => exact findBlock_insertBlock leaf _ _ j
  | some ranges =>
    have herase := findBlock_eraseBlock leaf (offset / blockSize) j
    simp only [findBlock_insertBlock, Option.elim_some]
    split_ifs with hj
    · rfl
    · rw [herase, if_neg hj]

lemma CachesContent.step {leaf leaf' : Leaf J} {content : List UInt8} (hl : leaf.CachesContent content)
    {a : Addition} (ha : a.Of content) (hfits : a.Fits leaf) (hs : Addition.step leaf a = some leaf') :
    leaf'.CachesContent content ∧
      ∀ x, leaf.Cached x ∨ a.offset ≤ x ∧ x < a.offset + a.size → leaf'.Cached x := by
  cases hs
  have hfind := leaf.findBlock_addData a.id a.offset a.size a.data
  have hblock : ∃ ranges, (leaf.addData a.id a.offset a.size a.data).2.findBlock (a.offset / blockSize) = some ranges ∧
      Faithful content ranges ∧ ∀ x, (∃ old, leaf.findBlock (a.offset / blockSize) = some old ∧ FileSystem.Cached old x) ∨
        a.offset ≤ x ∧ x < a.offset + a.size → FileSystem.Cached ranges x := by
    rw [hfind, if_pos rfl]
    refine ⟨_, rfl, ?_⟩
    cases hf : leaf.findBlock (a.offset / blockSize) with
    | none =>
      have hs : Sorted [Range.create a.id a.offset a.size a.data] := List.pairwise_singleton _ _
      refine ⟨⟨hs, fun r hr => ?_⟩, fun x hx => ?_⟩
      · rw [List.mem_singleton.mp hr]
        exact ⟨ha.nonempty, ha.bytes, ha.length⟩
      · rcases hx with ⟨_, h, -⟩ | ⟨hx, hx'⟩
        · cases h
        · exact (cached_middle_of_le (B := []) hs rfl hx).mpr hx'
    | some ranges =>
      obtain ⟨hf', hc⟩ :=
        ((hl.blocks _ _ hf).addRange_iff a.id ha.nonempty ha.bytes ha.length).mpr (hfits ranges hf)
      refine ⟨hf', fun x hx => hc x (hx.imp_left ?_)⟩
      rintro ⟨old, h, hold⟩
      cases h
      exact hold
  obtain ⟨ranges, hr, hfaith, hc⟩ := hblock
  refine ⟨⟨(leaf.size_addData _ _ _ _).trans hl.size, fun index rs hi => ?_⟩, fun x hx => ?_⟩
  · by_cases hj : index = a.offset / blockSize
    · rw [hj, hr] at hi
      cases hi
      exact hfaith
    · rw [hfind, if_neg hj] at hi
      exact hl.blocks index rs hi
  · by_cases hj : x / blockSize = a.offset / blockSize
    · refine ⟨ranges, by rw [hj, hr], hc x (hx.imp_left ?_)⟩
      rintro ⟨old, hold, hx⟩
      exact ⟨old, by rw [← hj, hold], hx⟩
    · rcases hx with ⟨old, hold, hx⟩ | ⟨hx, hx'⟩
      · exact ⟨old, by rw [hfind, if_neg hj, hold], hx⟩
      · exact absurd (ha.block_eq hx hx') hj

lemma CachesContent.run {leaf leaf' : Leaf J} {content : List UInt8} (hl : leaf.CachesContent content)
    {adds : List Addition} (h : Path Addition.step (fun l a => a.Of content ∧ a.Fits l) leaf adds leaf') :
    leaf'.CachesContent content ∧
      ∀ x, leaf.Cached x ∨ (∃ a ∈ adds, a.offset ≤ x ∧ x < a.offset + a.size) → leaf'.Cached x := by
  induction h with
  | nil _ =>
    refine ⟨hl, fun x hx => hx.resolve_right ?_⟩
    rintro ⟨a, ha, -⟩
    exact absurd ha List.not_mem_nil
  | cons hok hs _ ih =>
    obtain ⟨hl', hc⟩ := hl.step hok.1 hok.2 hs
    obtain ⟨hl'', hc'⟩ := ih hl'
    refine ⟨hl'', fun x hx => hc' x ?_⟩
    rcases hx with hx | ⟨a, ha, hx⟩
    · exact Or.inl (hc x (Or.inl hx))
    rcases List.mem_cons.mp ha with rfl | ha
    · exact Or.inl (hc x (Or.inr hx))
    · exact Or.inr ⟨a, ha, hx⟩

lemma cachesContent_create (name : String) (parent : ℕ) (content : List UInt8) :
    (create name parent content.length : Leaf J).CachesContent content :=
  ⟨rfl, fun _ _ h => by cases h⟩

theorem getData_reads_content {name : String} {parent : ℕ} {content : List UInt8} {adds : List Addition} {leaf : Leaf J}
    (h : Path Addition.step (fun l a => a.Of content ∧ a.Fits l) (create name parent content.length) adds leaf)
    (offset size : ℕ) :
    ∃ view, leaf.getData offset size = some view ∧ view.bytes <+: slice content offset size ∧
      (0 < size → (∃ a ∈ adds, a.offset ≤ offset ∧ offset < a.offset + a.size) → view.bytes ≠ []) := by
  obtain ⟨hl, hc⟩ := (cachesContent_create name parent content).run h
  obtain ⟨view, hview, hprefix, hne⟩ := hl.getData offset size
  refine ⟨view, hview, hprefix, fun hs ha => hne hs ?_ (hc offset (Or.inr ha))⟩
  obtain ⟨a, hmem, hx, hx'⟩ := ha
  exact (Addition.of_mem h a hmem).lt_length hx hx'

theorem getData_reads_content_overlapping :
    let content : List UInt8 := [10, 11, 12, 13, 14, 15]
    let first : Addition := ⟨0, 0, 4, [⟨0, [10, 11], []⟩, ⟨1, [12, 13], []⟩]⟩
    let second : Addition := ⟨1, 2, 4, [⟨2, [12, 13], []⟩, ⟨3, [14, 15], []⟩]⟩
    let leaf : Leaf Unit := (((create "file" 0 6).addData 0 0 4 first.data).2.addData 1 2 4 second.data).2
    Path Addition.step (fun l a => a.Of content ∧ a.Fits l) (create "file" 0 content.length) [first, second] leaf ∧
      ∃ view, leaf.getData 3 3 = some view ∧ view.bytes <+: [13, 14, 15] ∧ view.bytes ≠ [] := by
  intro content first second leaf
  have hpath : Path Addition.step (fun l a => a.Of content ∧ a.Fits l) (create "file" 0 content.length)
      [first, second] leaf := by
    refine .cons ⟨⟨by decide, by decide, by decide, by decide⟩, fun ranges hr => by cases hr⟩ rfl
      (.cons ⟨⟨by decide, by decide, by decide, by decide⟩, fun ranges hr => ?_⟩ rfl (.nil _))
    have hfind : ((create "file" 0 6 : Leaf Unit).addData 0 0 4 first.data).2.findBlock (2 / blockSize) =
        some [Range.create 0 0 4 first.data] := rfl
    cases hfind.symm.trans hr
    refine ⟨fun x _ _ ⟨r, hr, _⟩ => absurd hr List.not_mem_nil, fun prev hp _ _ _ => ?_, fun prev hp ho => ?_,
      fun prev hp _ hlen => ?_⟩
    · cases hp
      decide
    · cases hp
      exact absurd ho (by decide)
    · cases hp
      exact absurd hlen (by decide)
  obtain ⟨view, hview, hprefix, hne⟩ := getData_reads_content hpath 3 3
  exact ⟨hpath, view, hview, hprefix, hne (by decide) ⟨second, by simp, by decide, by decide⟩⟩

theorem contained_add_hides_byte :
    ¬ ∀ (content : List UInt8) (adds : List Addition) (leaf : Leaf Unit), (∀ a ∈ adds, a.Of content) →
      run Addition.step (create "file" 0 content.length) adds = some leaf → ∀ offset size,
        ∃ view, leaf.getData offset size = some view ∧ view.bytes <+: slice content offset size ∧
          (0 < size → (∃ a ∈ adds, a.offset ≤ offset ∧ offset < a.offset + a.size) → view.bytes ≠ []) := by
  intro h
  let first : Addition := ⟨0, 0, 3, [⟨0, [10, 11, 12], []⟩]⟩
  let second : Addition := ⟨1, 1, 1, [⟨1, [11], []⟩]⟩
  have hof : ∀ a ∈ [first, second], a.Of [10, 11, 12] := by
    intro a ha
    rcases List.mem_pair.mp ha with rfl | rfl
    · exact ⟨by decide, by decide, by decide, by decide⟩
    · exact ⟨by decide, by decide, by decide, by decide⟩
  let leaf : Leaf Unit := (((create "file" 0 3).addData 0 0 3 first.data).2.addData 1 1 1 second.data).2
  have hempty : leaf.getData 2 1 = some ⟨[], [1]⟩ := rfl
  obtain ⟨view, hview, -, hne⟩ := h [10, 11, 12] [first, second] leaf hof rfl 2 1
  cases hempty.symm.trans hview
  exact hne (by decide) ⟨first, by simp, by decide, by decide⟩ rfl

end Leaf

end FastTransport.FileSystem
