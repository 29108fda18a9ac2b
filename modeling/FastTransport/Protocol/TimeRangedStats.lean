import FastTransport.Protocol.SampleStats

/-! `TimeRangedStats`: a ring of slots of 50 ms that moves on when a later packet is counted. -/

namespace FastTransport.Protocol

def second : ℕ := 10 ^ 9

def statsInterval : ℕ := 50 * 10 ^ 6

structure TimeRangedStats where
  stats : ℕ → SampleStats
  startIndex : ℕ

namespace TimeRangedStats

def size : ℕ := 100

def emptySlot (start : ℤ) : SampleStats := ⟨0, 0, start, start + statsInterval, 0⟩

def create (now : ℤ) : TimeRangedStats :=
  ⟨fun i => emptySlot (now.tdiv second * second + i * statsInterval), 0⟩

def resetSlots (stats : ℕ → SampleStats) (i : ℕ) (startInterval : ℤ) : ℕ → ℕ → SampleStats
  | 0 => stats
  | n + 1 => Function.update (resetSlots stats i startInterval n) ((i + n) % size)
      (emptySlot (startInterval + n * statsInterval))

def slot (w : TimeRangedStats) (k : ℕ) : SampleStats := w.stats ((w.startIndex + k) % size)

def windowStart (w : TimeRangedStats) : ℤ := (w.slot 0).start

def distance (w : TimeRangedStats) (x : SampleStats) : ℕ := ((x.start - w.windowStart) / statsInterval).toNat

def updateSample (w : TimeRangedStats) (x : SampleStats) : TimeRangedStats :=
  if x.allPackets = 0 then w
  else if x.start < w.windowStart then w
  else
    let slotIndex := w.startIndex + w.distance x
    if slotIndex < w.startIndex + size then
      { w with stats := Function.update w.stats (slotIndex % size) ((w.stats (slotIndex % size)).merge x) }
    else
      let newStartIndex := max w.startIndex (slotIndex - size + 1)
      let startInterval := (w.stats ((w.startIndex + size - 1) % size)).endTime
      let stats := resetSlots w.stats w.startIndex startInterval
        (min newStartIndex (w.startIndex + size) - w.startIndex)
      let slotStart := w.windowStart + w.distance x * statsInterval
      ⟨Function.update stats (slotIndex % size) ((emptySlot slotStart).merge x), newStartIndex⟩

def sample (lostPacket : Bool) (sendTime rtt : ℤ) : SampleStats :=
  ⟨1, if lostPacket then 1 else 0, sendTime, sendTime, rtt⟩

def addPacket (w : TimeRangedStats) (lostPacket : Bool) (sendTime rtt : ℤ) : TimeRangedStats :=
  w.updateSample (sample lostPacket sendTime rtt)

def getSamplesStats (w : TimeRangedStats) : List SampleStats := (List.range size).map w.stats

def updateStats (w that : TimeRangedStats) : TimeRangedStats := that.getSamplesStats.foldl updateSample w

def Accepts (w : TimeRangedStats) (x : SampleStats) : Prop := x.allPackets ≠ 0 ∧ w.windowStart ≤ x.start

instance (w : TimeRangedStats) (x : SampleStats) : Decidable (w.Accepts x) :=
  inferInstanceAs (Decidable (_ ∧ _))

def Near (w : TimeRangedStats) (x : SampleStats) : Prop := w.Accepts x → w.distance x ≤ 2 * size

structure Bounds (w : TimeRangedStats) : Prop where
  start : ∀ k < size, (w.slot k).start = w.windowStart + k * statsInterval
  endTime : ∀ k < size, (w.slot k).endTime = (w.slot k).start + statsInterval

lemma mod_size_inj {i j k : ℕ} (hj : j < size) (hk : k < size) : (i + j) % size = (i + k) % size ↔ j = k := by
  simp only [size] at hj hk ⊢
  omega

lemma resetSlots_inside {stats : ℕ → SampleStats} {i n j : ℕ} {startInterval : ℤ} (hn : n ≤ size) (hj : j < n) :
    resetSlots stats i startInterval n ((i + j) % size) = emptySlot (startInterval + j * statsInterval) := by
  induction n with
  | zero => cases hj
  | succ n ih =>
    rw [resetSlots]
    by_cases h : j = n
    · rw [h, Function.update_self]
    · have hne := mt (mod_size_inj (i := i) (hj.trans_le hn) hn).mp h
      rw [Function.update_of_ne hne]
      exact ih (by omega) (by omega)

lemma resetSlots_outside {stats : ℕ → SampleStats} {i n j : ℕ} {startInterval : ℤ} (hn : n ≤ j) (hj : j < size) :
    resetSlots stats i startInterval n ((i + j) % size) = stats ((i + j) % size) := by
  induction n with
  | zero => rfl
  | succ n ih =>
    have hne : (i + j) % size ≠ (i + n) % size := mt (mod_size_inj hj (by omega)).mp (by omega)
    rw [resetSlots, Function.update_of_ne hne]
    exact ih (by omega)

lemma updateSample_of_not_accepts {w : TimeRangedStats} {x : SampleStats} (h : ¬ w.Accepts x) :
    w.updateSample x = w := by
  rw [updateSample]
  split_ifs with hall hstart
  · rfl
  · rfl
  · exact absurd ⟨hall, not_lt.mp hstart⟩ h

lemma updateSample_inside {w : TimeRangedStats} {x : SampleStats} (h : w.Accepts x) (hd : w.distance x < size) :
    (w.updateSample x).startIndex = w.startIndex ∧ ∀ k < size, (w.updateSample x).slot k =
      if k = w.distance x then (w.slot k).merge x else w.slot k := by
  have hlt : w.startIndex + w.distance x < w.startIndex + size := Nat.add_lt_add_left hd _
  simp only [updateSample, if_neg h.1, if_neg (not_lt.mpr h.2), if_pos hlt, true_and, slot]
  intro k hk
  by_cases hkd : k = w.distance x
  · rw [if_pos hkd, hkd, Function.update_self]
  · rw [if_neg hkd, Function.update_of_ne (mt (mod_size_inj hk hd).mp hkd)]

lemma updateSample_outside {w : TimeRangedStats} {x : SampleStats} (h : w.Accepts x) (hd : size ≤ w.distance x) :
    w.updateSample x = ⟨Function.update (resetSlots w.stats w.startIndex (w.slot (size - 1)).endTime
        (min (w.distance x + 1 - size) size)) ((w.startIndex + w.distance x) % size)
        ((emptySlot (w.windowStart + w.distance x * statsInterval)).merge x),
      w.startIndex + (w.distance x + 1 - size)⟩ := by
  have hlt : ¬ w.startIndex + w.distance x < w.startIndex + size := by omega
  have hnew : max w.startIndex (w.startIndex + w.distance x - size + 1) =
      w.startIndex + (w.distance x + 1 - size) := by omega
  have hcount : min (w.startIndex + (w.distance x + 1 - size)) (w.startIndex + size) - w.startIndex =
      min (w.distance x + 1 - size) size := by omega
  have hlast : w.startIndex + size - 1 = w.startIndex + (size - 1) := Nat.add_sub_assoc (by decide) _
  simp only [updateSample, if_neg h.1, if_neg (not_lt.mpr h.2), if_neg hlt, hnew, hcount, hlast, slot]

lemma slot_updateSample_last {w : TimeRangedStats} {x : SampleStats} (h : w.Accepts x)
    (hd : size ≤ w.distance x) : (w.updateSample x).slot (size - 1) =
      (emptySlot (w.windowStart + w.distance x * statsInterval)).merge x := by
  have hindex : w.startIndex + (w.distance x + 1 - size) + (size - 1) = w.startIndex + w.distance x := by
    simp only [size] at hd ⊢
    omega
  rw [updateSample_outside h hd, slot, hindex]
  exact Function.update_self _ _ _

lemma slot_updateSample_reused {w : TimeRangedStats} {x : SampleStats} (h : w.Accepts x)
    (hd : size ≤ w.distance x) {k j : ℕ} (hk : k < size - 1) (hj : j < size)
    (hmod : (w.distance x + 1 - size + k) % size = j) :
    (w.updateSample x).slot k =
      if j < w.distance x + 1 - size then emptySlot ((w.slot (size - 1)).endTime + j * statsInterval)
      else w.slot j := by
  have hindex : (w.startIndex + (w.distance x + 1 - size) + k) % size = (w.startIndex + j) % size := by
    simp only [size] at hd hk hj hmod ⊢
    omega
  have hlast : (w.startIndex + j) % size ≠ (w.startIndex + w.distance x) % size := by
    simp only [size] at hd hk hj hmod ⊢
    omega
  rw [updateSample_outside h hd, slot]
  simp only [hindex]
  rw [Function.update_of_ne hlast]
  split_ifs with hreset
  · exact resetSlots_inside (Nat.min_le_right _ _) (lt_min hreset hj)
  · exact resetSlots_outside ((Nat.min_le_left _ _).trans (not_lt.mp hreset)) hj

def extended (w : TimeRangedStats) (m : ℕ) : SampleStats :=
  if m < size then w.slot m else emptySlot (w.windowStart + m * statsInterval)

lemma Bounds.extended {w : TimeRangedStats} (hw : w.Bounds) (m : ℕ) :
    (w.extended m).start = w.windowStart + m * statsInterval ∧
      (w.extended m).endTime = w.windowStart + m * statsInterval + statsInterval := by
  by_cases hm : m < size
  · rw [TimeRangedStats.extended, if_pos hm, hw.endTime m hm, hw.start m hm]
    exact ⟨rfl, rfl⟩
  · rw [TimeRangedStats.extended, if_neg hm]
    exact ⟨rfl, rfl⟩

theorem updateSample_extended {w : TimeRangedStats} {x : SampleStats} (hw : w.Bounds) (h : w.Accepts x)
    (hnear : w.distance x ≤ 2 * size) :
    (w.updateSample x).startIndex = w.startIndex + (w.distance x + 1 - size) ∧
      ∀ k < size, (w.updateSample x).slot k =
        if k + (w.distance x + 1 - size) = w.distance x then (w.extended (w.distance x)).merge x
        else w.extended (k + (w.distance x + 1 - size)) := by
  by_cases hd : w.distance x < size
  · obtain ⟨hindex, hslot⟩ := updateSample_inside h hd
    have hzero : w.distance x + 1 - size = 0 := Nat.sub_eq_zero_of_le hd
    rw [hzero]
    refine ⟨hindex, fun k hk => ?_⟩
    rw [hslot k hk, Nat.add_zero, extended, if_pos hd, extended, if_pos hk]
    split_ifs with hkd
    · rw [hkd]
    · rfl
  · have hout : size ≤ w.distance x := not_lt.mp hd
    refine ⟨by rw [updateSample_outside h hout], fun k hk => ?_⟩
    have hshift : w.distance x + 1 - size + (size - 1) = w.distance x := by
      simp only [size] at hout ⊢
      omega
    by_cases hlast : k = size - 1
    · rw [hlast, if_pos (by omega), slot_updateSample_last h hout, extended, if_neg hd]
    · have hk' : k < size - 1 := by omega
      rw [if_neg (by omega), extended]
      by_cases hin : k + (w.distance x + 1 - size) < size
      · have hmod : (w.distance x + 1 - size + k) % size = k + (w.distance x + 1 - size) := by
          rw [Nat.add_comm, Nat.mod_eq_of_lt hin]
        rw [if_pos hin, slot_updateSample_reused h hout hk' hin hmod, if_neg (by omega)]
      · have hj : k + (w.distance x + 1 - size) - size < size := by omega
        have hmod : (w.distance x + 1 - size + k) % size = k + (w.distance x + 1 - size) - size := by
          rw [Nat.mod_eq_sub_mod (by omega), Nat.mod_eq_of_lt (by omega)]
          omega
        rw [if_neg hin, slot_updateSample_reused h hout hk' hj hmod, if_pos (by omega),
          hw.endTime _ (by decide), hw.start _ (by decide)]
        congr 1
        have hcast : ((k + (w.distance x + 1 - size) - size : ℕ) : ℤ) =
            ((k + (w.distance x + 1 - size) : ℕ) : ℤ) - size := Nat.cast_sub (not_lt.mp hin)
        rw [hcast]
        simp only [size]
        push_cast
        ring

lemma distance_spec {w : TimeRangedStats} {x : SampleStats} (h : w.Accepts x) :
    w.windowStart + w.distance x * statsInterval ≤ x.start ∧
      x.start < w.windowStart + (w.distance x + 1) * statsInterval := by
  have hpos : (0 : ℤ) < statsInterval := by decide
  have hnonneg : 0 ≤ (x.start - w.windowStart) / statsInterval :=
    Int.ediv_nonneg (sub_nonneg.mpr h.2) hpos.le
  have hdistance : (w.distance x : ℤ) = (x.start - w.windowStart) / statsInterval := Int.toNat_of_nonneg hnonneg
  have hle := Int.ediv_mul_le (x.start - w.windowStart) hpos.ne'
  have hlt := Int.lt_ediv_add_one_mul_self (x.start - w.windowStart) hpos
  rw [hdistance]
  constructor <;> linarith

/-- The slot times a sample lies in: its own bounds stay within one slot of the grid. -/
structure InSlot (x : SampleStats) (base : ℤ) : Prop where
  grid : (statsInterval : ℤ) ∣ base
  start : base ≤ x.start ∧ x.start < base + statsInterval
  endTime : x.endTime ≤ base + statsInterval

lemma distance_of_inSlot {w : TimeRangedStats} {x : SampleStats} {base : ℤ} (h : w.Accepts x)
    (hw : (statsInterval : ℤ) ∣ w.windowStart) (hx : InSlot x base) :
    base = w.windowStart + w.distance x * statsInterval := by
  obtain ⟨m, hm⟩ := hx.grid
  obtain ⟨n, hn⟩ := hw
  obtain ⟨hle, hlt⟩ := distance_spec h
  have hstart := hx.start
  have hinterval : (statsInterval : ℤ) = 50000000 := by decide
  rw [hinterval] at hm hn hle hlt hstart ⊢
  omega

lemma slot_far_start {w : TimeRangedStats} {x : SampleStats} (hw : w.Bounds) (h : w.Accepts x)
    (hfar : 2 * size < w.distance x) {k : ℕ} (hk : k < size - 1) :
    ((w.updateSample x).slot k).start =
      w.windowStart + ((size + (w.distance x + 1 - size + k) % size : ℕ) : ℤ) * statsInterval := by
  have hj : (w.distance x + 1 - size + k) % size < size := Nat.mod_lt _ (by decide)
  rw [slot_updateSample_reused h (by omega) hk hj rfl, if_pos (by omega), hw.endTime _ (by decide),
    hw.start _ (by decide), Nat.cast_add]
  simp only [emptySlot, size]
  push_cast
  ring

theorem not_bounds_of_far {w : TimeRangedStats} {x : SampleStats} (hw : w.Bounds) (h : w.Accepts x)
    (hfar : 2 * size < w.distance x) : ¬ (w.updateSample x).Bounds := by
  intro hb
  have hinterval : (statsInterval : ℤ) = 50000000 := by decide
  have hzero : (w.updateSample x).windowStart = _ := slot_far_start hw h hfar (show 0 < size - 1 by decide)
  have hlast := hb.start (size - 1) (by decide)
  have hbefore := hb.start (size - 2) (by decide)
  have hstart : ((emptySlot (w.windowStart + w.distance x * statsInterval)).merge x).start =
      w.windowStart + w.distance x * statsInterval := min_eq_left (distance_spec h).1
  rw [slot_updateSample_last h (by omega), hstart, hzero] at hlast
  rw [slot_far_start hw h hfar (by decide), hzero] at hbefore
  simp only [hinterval, size] at hlast hbefore hfar
  omega

end TimeRangedStats

end FastTransport.Protocol
