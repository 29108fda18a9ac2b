import Mathlib

/-! `SampleStats`: packet counts and a mean round-trip time, merged one sample after another.
Times are in nanoseconds. -/

namespace FastTransport.Protocol

def timeMax : ℤ := 2 ^ 63 - 1

def timeMin : ℤ := -2 ^ 63

/-- `_lost`, a percentage kept as a `double`, is left out. -/
structure SampleStats where
  allPackets : ℤ
  lostPackets : ℤ
  start : ℤ
  endTime : ℤ
  rtt : ℤ
  deriving DecidableEq

namespace SampleStats

def empty : SampleStats := ⟨0, 0, timeMax, timeMin, 0⟩

def acknowledgedPackets (s : SampleStats) : ℤ := s.allPackets - s.lostPackets

def merge (s that : SampleStats) : SampleStats where
  start := min s.start that.start
  endTime := max s.endTime that.endTime
  rtt :=
    if that.acknowledgedPackets ≠ 0 then
      (s.rtt * s.acknowledgedPackets + that.rtt * that.acknowledgedPackets).tdiv
        (that.acknowledgedPackets + s.acknowledgedPackets)
    else s.rtt
  allPackets := s.allPackets + that.allPackets
  lostPackets := s.lostPackets + that.lostPackets

def mergeAll (s : SampleStats) (samples : List SampleStats) : SampleStats := samples.foldl merge s

structure SafeMerge (s that : SampleStats) : Prop where
  divisor : that.acknowledgedPackets ≠ 0 → that.acknowledgedPackets + s.acknowledgedPackets ≠ 0
  packets : 0 ≤ s.lostPackets + that.lostPackets ∧ s.lostPackets + that.lostPackets ≤ s.allPackets + that.allPackets ∧
    s.allPackets + that.allPackets < 2 ^ 31
  product : 0 ≤ s.rtt * s.acknowledgedPackets ∧ s.rtt * s.acknowledgedPackets < 2 ^ 62
  thatProduct : 0 ≤ that.rtt * that.acknowledgedPackets ∧ that.rtt * that.acknowledgedPackets < 2 ^ 62

def SafeMerges : SampleStats → List SampleStats → Prop
  | _, [] => True
  | s, x :: xs => s.SafeMerge x ∧ SafeMerges (s.merge x) xs

structure Valid (s : SampleStats) : Prop where
  lost : 0 ≤ s.lostPackets
  all : s.lostPackets ≤ s.allPackets
  rtt : 0 ≤ s.rtt ∧ s.rtt < 2 ^ 31
  start : s.start ≤ timeMax
  endTime : timeMin ≤ s.endTime

def total (samples : List SampleStats) : ℤ := (samples.map allPackets).sum

structure Summarises (s : SampleStats) (samples : List SampleStats) : Prop where
  allPackets : s.allPackets = total samples
  lostPackets : s.lostPackets = (samples.map SampleStats.lostPackets).sum
  start : (samples = [] ∧ s.start = timeMax) ∨
    (∃ x ∈ samples, s.start = x.start) ∧ ∀ x ∈ samples, s.start ≤ x.start
  endTime : (samples = [] ∧ s.endTime = timeMin) ∨
    (∃ x ∈ samples, s.endTime = x.endTime) ∧ ∀ x ∈ samples, x.endTime ≤ s.endTime
  rtt : (∃ x ∈ samples, x.acknowledgedPackets ≠ 0) →
    (∃ x ∈ samples, x.acknowledgedPackets ≠ 0 ∧ x.rtt ≤ s.rtt) ∧
      ∃ x ∈ samples, x.acknowledgedPackets ≠ 0 ∧ s.rtt ≤ x.rtt
  idle : (∀ x ∈ samples, x.acknowledgedPackets = 0) → s.rtt = 0 ∧ s.acknowledgedPackets = 0

lemma mean_bounds {a b m n : ℤ} (hm : 0 ≤ m) (hn : 0 < n) (ha : 0 ≤ a) (hb : 0 ≤ b) :
    min a b ≤ (a * m + b * n).tdiv (n + m) ∧ (a * m + b * n).tdiv (n + m) ≤ max a b := by
  have hsum : 0 ≤ a * m + b * n := by positivity
  have hpos : 0 < n + m := by omega
  rw [Int.tdiv_eq_ediv_of_nonneg hsum]
  constructor
  · rw [Int.le_ediv_iff_mul_le hpos]
    have h1 : min a b * m ≤ a * m := mul_le_mul_of_nonneg_right (min_le_left _ _) hm
    have h2 : min a b * n ≤ b * n := mul_le_mul_of_nonneg_right (min_le_right _ _) hn.le
    calc min a b * (n + m) = min a b * m + min a b * n := by ring
      _ ≤ a * m + b * n := add_le_add h1 h2
  · apply Int.ediv_le_of_le_mul hpos
    have h1 : a * m ≤ max a b * m := mul_le_mul_of_nonneg_right (le_max_left _ _) hm
    have h2 : b * n ≤ max a b * n := mul_le_mul_of_nonneg_right (le_max_right _ _) hn.le
    calc a * m + b * n ≤ max a b * m + max a b * n := add_le_add h1 h2
      _ = max a b * (n + m) := by ring

lemma Valid.acknowledged {x : SampleStats} (hx : x.Valid) : 0 ≤ x.acknowledgedPackets :=
  sub_nonneg.mpr hx.all

lemma acknowledgedPackets_merge (s x : SampleStats) :
    (s.merge x).acknowledgedPackets = s.acknowledgedPackets + x.acknowledgedPackets := by
  simp only [merge, acknowledgedPackets]
  ring

lemma rtt_merge_of_zero {x : SampleStats} (s : SampleStats) (hx : x.acknowledgedPackets = 0) :
    (s.merge x).rtt = s.rtt := by
  simp [merge, hx]

lemma rtt_merge_of_idle {s x : SampleStats} (hs : s.rtt = 0 ∧ s.acknowledgedPackets = 0)
    (hx : x.acknowledgedPackets ≠ 0) : (s.merge x).rtt = x.rtt := by
  simp [merge, hs.1, hs.2, hx, Int.mul_tdiv_cancel]

lemma rtt_merge_bounds {s x : SampleStats} (hs : 0 ≤ s.acknowledgedPackets) (hr : 0 ≤ s.rtt) (hx : x.Valid)
    (hack : x.acknowledgedPackets ≠ 0) :
    min s.rtt x.rtt ≤ (s.merge x).rtt ∧ (s.merge x).rtt ≤ max s.rtt x.rtt := by
  simp only [merge, if_pos hack]
  exact mean_bounds hs (lt_of_le_of_ne hx.acknowledged hack.symm) hr hx.rtt.1

lemma total_append (xs ys : List SampleStats) : total (xs ++ ys) = total xs + total ys := by
  simp [total]

lemma total_nonneg {samples : List SampleStats} (hv : ∀ x ∈ samples, Valid x) : 0 ≤ total samples := by
  apply List.sum_nonneg
  intro n hn
  obtain ⟨x, hx, rfl⟩ := List.mem_map.mp hn
  exact (hv x hx).lost.trans (hv x hx).all

lemma lost_bounds {samples : List SampleStats} (hv : ∀ x ∈ samples, Valid x) :
    0 ≤ (samples.map SampleStats.lostPackets).sum ∧ (samples.map SampleStats.lostPackets).sum ≤ total samples := by
  constructor
  · apply List.sum_nonneg
    intro n hn
    obtain ⟨x, hx, rfl⟩ := List.mem_map.mp hn
    exact (hv x hx).lost
  · exact List.sum_le_sum fun x hx => (hv x hx).all

lemma Summarises.acknowledged {s : SampleStats} {samples : List SampleStats} (hs : s.Summarises samples)
    (hv : ∀ x ∈ samples, Valid x) : 0 ≤ s.acknowledgedPackets := by
  rw [acknowledgedPackets, hs.allPackets, hs.lostPackets]
  exact sub_nonneg.mpr (lost_bounds hv).2

lemma Summarises.rtt_bounds {s : SampleStats} {samples : List SampleStats} (hs : s.Summarises samples)
    (hv : ∀ x ∈ samples, Valid x) : 0 ≤ s.rtt ∧ s.rtt < 2 ^ 31 := by
  by_cases hack : ∃ x ∈ samples, x.acknowledgedPackets ≠ 0
  · obtain ⟨⟨x, hx, _, hlow⟩, y, hy, _, hhigh⟩ := hs.rtt hack
    exact ⟨(hv x hx).rtt.1.trans hlow, hhigh.trans_lt (hv y hy).rtt.2⟩
  · push Not at hack
    rw [(hs.idle hack).1]
    exact ⟨le_rfl, by decide⟩

lemma summarises_empty : Summarises empty [] where
  allPackets := rfl
  lostPackets := rfl
  start := Or.inl ⟨rfl, rfl⟩
  endTime := Or.inl ⟨rfl, rfl⟩
  rtt := fun ⟨x, hx, _⟩ => by cases hx
  idle := fun _ => ⟨rfl, rfl⟩

lemma Summarises.safeMerge {s x : SampleStats} {samples : List SampleStats} (hs : s.Summarises samples)
    (hv : ∀ y ∈ samples, Valid y) (hx : x.Valid) (ht : total samples + x.allPackets < 2 ^ 31) : s.SafeMerge x := by
  have hack := hs.acknowledged hv
  have hxack := hx.acknowledged
  have hlost := lost_bounds hv
  have htotal := total_nonneg hv
  have hrtt := hs.rtt_bounds hv
  have hall := hs.allPackets
  have hslost := hs.lostPackets
  have hxlost := hx.lost
  have hxall := hx.all
  have hsmall : s.acknowledgedPackets < 2 ^ 31 := by rw [acknowledgedPackets]; omega
  have hxsmall : x.acknowledgedPackets < 2 ^ 31 := by rw [acknowledgedPackets]; omega
  refine ⟨fun hne => by omega, ⟨by omega, by omega, by omega⟩, ⟨mul_nonneg hrtt.1 hack, ?_⟩,
    mul_nonneg hx.rtt.1 hxack, ?_⟩
  · exact (mul_lt_mul'' hrtt.2 hsmall hrtt.1 hack).trans_eq (by norm_num)
  · exact (mul_lt_mul'' hx.rtt.2 hxsmall hx.rtt.1 hxack).trans_eq (by norm_num)

lemma Summarises.start_merge {s x : SampleStats} {samples : List SampleStats} (hs : s.Summarises samples)
    (hx : x.Valid) : (∃ y ∈ samples ++ [x], (s.merge x).start = y.start) ∧
      ∀ y ∈ samples ++ [x], (s.merge x).start ≤ y.start := by
  have hmerge : (s.merge x).start = min s.start x.start := rfl
  rw [hmerge]
  rcases hs.start with ⟨rfl, hmax⟩ | ⟨⟨y, hy, hstart⟩, hle⟩
  · rw [hmax, min_eq_right hx.start]
    exact ⟨⟨x, List.mem_cons_self, rfl⟩, List.forall_mem_singleton.mpr le_rfl⟩
  · refine ⟨?_, List.forall_mem_append.mpr
      ⟨fun z hz => (min_le_left _ _).trans (hle z hz), List.forall_mem_singleton.mpr (min_le_right _ _)⟩⟩
    rcases min_choice s.start x.start with h | h
    · exact ⟨y, List.mem_append_left _ hy, h.trans hstart⟩
    · exact ⟨x, List.mem_append_right _ List.mem_cons_self, h⟩

lemma Summarises.endTime_merge {s x : SampleStats} {samples : List SampleStats} (hs : s.Summarises samples)
    (hx : x.Valid) : (∃ y ∈ samples ++ [x], (s.merge x).endTime = y.endTime) ∧
      ∀ y ∈ samples ++ [x], y.endTime ≤ (s.merge x).endTime := by
  have hmerge : (s.merge x).endTime = max s.endTime x.endTime := rfl
  rw [hmerge]
  rcases hs.endTime with ⟨rfl, hmin⟩ | ⟨⟨y, hy, hend⟩, hle⟩
  · rw [hmin, max_eq_right hx.endTime]
    exact ⟨⟨x, List.mem_cons_self, rfl⟩, List.forall_mem_singleton.mpr le_rfl⟩
  · refine ⟨?_, List.forall_mem_append.mpr
      ⟨fun z hz => (hle z hz).trans (le_max_left _ _), List.forall_mem_singleton.mpr (le_max_right _ _)⟩⟩
    rcases max_choice s.endTime x.endTime with h | h
    · exact ⟨y, List.mem_append_left _ hy, h.trans hend⟩
    · exact ⟨x, List.mem_append_right _ List.mem_cons_self, h⟩

lemma Summarises.rtt_merge {s x : SampleStats} {samples : List SampleStats} (hs : s.Summarises samples)
    (hv : ∀ y ∈ samples, Valid y) (hx : x.Valid)
    (hack : ∃ y ∈ samples ++ [x], y.acknowledgedPackets ≠ 0) :
    (∃ y ∈ samples ++ [x], y.acknowledgedPackets ≠ 0 ∧ y.rtt ≤ (s.merge x).rtt) ∧
      ∃ y ∈ samples ++ [x], y.acknowledgedPackets ≠ 0 ∧ (s.merge x).rtt ≤ y.rtt := by
  have hlast : x ∈ samples ++ [x] := List.mem_append_right _ List.mem_cons_self
  by_cases hzero : x.acknowledgedPackets = 0
  · obtain ⟨y, hy, hne⟩ := hack
    have hmem : y ∈ samples := by
      rcases List.mem_append.mp hy with hy | hy
      · exact hy
      · exact absurd hzero (List.mem_singleton.mp hy ▸ hne)
    obtain ⟨⟨a, ha, hlow⟩, b, hb, hhigh⟩ := hs.rtt ⟨y, hmem, hne⟩
    rw [rtt_merge_of_zero s hzero]
    exact ⟨⟨a, List.mem_append_left _ ha, hlow⟩, b, List.mem_append_left _ hb, hhigh⟩
  · by_cases hbefore : ∃ y ∈ samples, y.acknowledgedPackets ≠ 0
    · obtain ⟨⟨a, ha, hane, hlow⟩, b, hb, hbne, hhigh⟩ := hs.rtt hbefore
      obtain ⟨hmin, hmax⟩ := rtt_merge_bounds (hs.acknowledged hv) (hs.rtt_bounds hv).1 hx hzero
      rcases le_total s.rtt x.rtt with hle | hle
      · rw [min_eq_left hle] at hmin
        rw [max_eq_right hle] at hmax
        exact ⟨⟨a, List.mem_append_left _ ha, hane, hlow.trans hmin⟩, x, hlast, hzero, hmax⟩
      · rw [min_eq_right hle] at hmin
        rw [max_eq_left hle] at hmax
        exact ⟨⟨x, hlast, hzero, hmin⟩, b, List.mem_append_left _ hb, hbne, hmax.trans hhigh⟩
    · push Not at hbefore
      rw [rtt_merge_of_idle (hs.idle hbefore) hzero]
      exact ⟨⟨x, hlast, hzero, le_rfl⟩, x, hlast, hzero, le_rfl⟩

lemma Summarises.merge {s x : SampleStats} {samples : List SampleStats} (hs : s.Summarises samples)
    (hv : ∀ y ∈ samples, Valid y) (hx : x.Valid) : (s.merge x).Summarises (samples ++ [x]) where
  allPackets := by
    rw [total_append, ← hs.allPackets]
    simp [SampleStats.merge, total]
  lostPackets := by
    rw [List.map_append, List.sum_append, ← hs.lostPackets]
    simp [SampleStats.merge]
  start := Or.inr (hs.start_merge hx)
  endTime := Or.inr (hs.endTime_merge hx)
  rtt := hs.rtt_merge hv hx
  idle := fun h => by
    obtain ⟨hbefore, hlast⟩ := List.forall_mem_append.mp h
    have hzero := List.forall_mem_singleton.mp hlast
    rw [rtt_merge_of_zero s hzero, acknowledgedPackets_merge, hzero, add_zero]
    exact hs.idle hbefore

lemma mergeAll_append {s : SampleStats} {before samples : List SampleStats} (hs : s.Summarises before)
    (hv : ∀ x ∈ before ++ samples, Valid x) (ht : total (before ++ samples) < 2 ^ 31) :
    s.SafeMerges samples ∧ (s.mergeAll samples).Summarises (before ++ samples) := by
  induction samples generalizing s before with
  | nil =>
    rw [List.append_nil]
    exact ⟨trivial, hs⟩
  | cons x xs ih =>
    obtain ⟨hbefore, hrest⟩ := List.forall_mem_append.mp hv
    obtain ⟨hx, hxs⟩ := List.forall_mem_cons.mp hrest
    have hcons : before ++ x :: xs = before ++ [x] ++ xs := by simp
    have hlt : total before + x.allPackets < 2 ^ 31 := by
      have hpos := total_nonneg hxs
      rw [hcons, total_append, total_append] at ht
      simp only [total, List.map_cons, List.map_nil, List.sum_cons, List.sum_nil] at ht hpos ⊢
      omega
    rw [hcons] at hv ht
    obtain ⟨hsafe, hsum⟩ := ih (hs.merge hbefore hx) hv ht
    rw [hcons]
    exact ⟨⟨hs.safeMerge hbefore hx hlt, hsafe⟩, hsum⟩

lemma Summarises.perm {s : SampleStats} {samples order : List SampleStats} (hp : order.Perm samples)
    (hs : s.Summarises order) : s.Summarises samples where
  allPackets := hs.allPackets.trans (hp.map _).sum_eq
  lostPackets := hs.lostPackets.trans (hp.map _).sum_eq
  start := by
    simpa only [List.eq_nil_iff_forall_not_mem, hp.mem_iff] using hs.start
  endTime := by
    simpa only [List.eq_nil_iff_forall_not_mem, hp.mem_iff] using hs.endTime
  rtt := by
    simpa only [hp.mem_iff] using hs.rtt
  idle := by
    simpa only [hp.mem_iff] using hs.idle

theorem mergeAll_summarises {samples order : List SampleStats} (hv : ∀ x ∈ samples, Valid x)
    (ht : total samples < 2 ^ 31) (hp : order.Perm samples) :
    SafeMerges empty order ∧ (mergeAll empty order).Summarises samples := by
  have hv' : ∀ x ∈ [] ++ order, Valid x := fun x hx => hv x (hp.mem_iff.mp hx)
  have ht' : total ([] ++ order) < 2 ^ 31 := by
    rw [List.nil_append, total, (hp.map _).sum_eq]
    exact ht
  obtain ⟨hsafe, hsum⟩ := mergeAll_append summarises_empty hv' ht'
  exact ⟨hsafe, hsum.perm hp⟩

theorem mergeAll_summarises_lossy :
    (SafeMerges empty [⟨2, 2, 5, 6, 9⟩, ⟨3, 1, 1, 8, 7⟩, ⟨1, 0, 4, 4, 2⟩] ∧
      (mergeAll empty [⟨2, 2, 5, 6, 9⟩, ⟨3, 1, 1, 8, 7⟩, ⟨1, 0, 4, 4, 2⟩]).Summarises
        [⟨1, 0, 4, 4, 2⟩, ⟨3, 1, 1, 8, 7⟩, ⟨2, 2, 5, 6, 9⟩]) ∧
      (mergeAll empty [⟨2, 2, 5, 6, 9⟩, ⟨3, 1, 1, 8, 7⟩, ⟨1, 0, 4, 4, 2⟩]).rtt = 5 := by
  refine ⟨mergeAll_summarises ?_ (by decide) (by decide), by decide⟩
  simp only [List.forall_mem_cons, List.not_mem_nil, false_implies, implies_true, and_true]
  refine ⟨⟨?_, ?_, ?_, ?_, ?_⟩, ⟨?_, ?_, ?_, ?_, ?_⟩, ⟨?_, ?_, ?_, ?_, ?_⟩⟩ <;> decide

end SampleStats

end FastTransport.Protocol
