import FastTransport.Protocol.TimeRangedStats

/-! Which packets the slots of a `TimeRangedStats` count, over runs of its operations. -/

namespace FastTransport.Protocol

open TimeRangedStats SampleStats

structure Sent where
  lost : Bool
  sendTime : ℤ

/-- Slots are numbered by `startIndex + k`; `entered` is how many packets had been accepted when
the slot of that number came into the window. -/
structure StatsWindow where
  ranged : TimeRangedStats
  accepted : List Sent
  entered : ℕ → ℕ

namespace StatsWindow

def within (s : SampleStats) (p : Sent) : Bool := s.start ≤ p.sendTime && p.sendTime < s.endTime

def held (w : StatsWindow) (k : ℕ) : List Sent :=
  (w.accepted.drop (w.entered (w.ranged.startIndex + k))).filter (within (w.ranged.slot k))

structure Counts (s : SampleStats) (packets : List Sent) : Prop where
  allPackets : s.allPackets = packets.length
  lostPackets : s.lostPackets = packets.countP Sent.lost

structure Exact (w : StatsWindow) : Prop where
  bounds : w.ranged.Bounds
  counts : ∀ k < size, Counts (w.ranged.slot k) (w.held k)

def create (now : ℤ) : StatsWindow := ⟨TimeRangedStats.create now, [], fun _ => 0⟩

def add (w : StatsWindow) (x : SampleStats) (packets : List Sent) : StatsWindow where
  ranged := w.ranged.updateSample x
  accepted := if w.ranged.Accepts x then w.accepted ++ packets else w.accepted
  entered := fun a => if a < w.ranged.startIndex + size then w.entered a else w.accepted.length

def addPacket (w : StatsWindow) (lostPacket : Bool) (sendTime rtt : ℤ) : StatsWindow :=
  w.add (sample lostPacket sendTime rtt) [⟨lostPacket, sendTime⟩]

def position (w : StatsWindow) (i : ℕ) : ℕ := (i + size - w.ranged.startIndex % size) % size

def updateFrom (w that : StatsWindow) (n : ℕ) : StatsWindow :=
  (List.range n).foldl (fun w i => w.add (that.ranged.stats i) (that.held (that.position i))) w

def updateStats (w that : StatsWindow) : StatsWindow := w.updateFrom that size

lemma updateFrom_ranged (w that : StatsWindow) (n : ℕ) :
    (w.updateFrom that n).ranged = ((List.range n).map that.ranged.stats).foldl updateSample w.ranged := by
  induction n with
  | zero => rfl
  | succ n ih =>
    rw [updateFrom, List.range_succ, List.foldl_append, List.map_append, List.foldl_append, ← ih]
    rfl

theorem updateStats_ranged (w that : StatsWindow) : (w.updateStats that).ranged = w.ranged.updateStats that.ranged :=
  updateFrom_ranged w that size

lemma stats_eq_slot (w : StatsWindow) {i : ℕ} (hi : i < size) :
    w.position i < size ∧ w.ranged.stats i = w.ranged.slot (w.position i) := by
  refine ⟨Nat.mod_lt _ (by decide), ?_⟩
  rw [slot, position]
  congr 1
  simp only [size] at hi ⊢
  omega

/-- Windows reached by packets and by other windows, each sample meeting the condition at its turn. -/
inductive Reached (ok : TimeRangedStats → SampleStats → Prop) : StatsWindow → Prop
  | create (now : ℤ) : Reached ok (create now)
  | addPacket {w : StatsWindow} (lostPacket : Bool) (sendTime rtt : ℤ) : Reached ok w →
      ok w.ranged (sample lostPacket sendTime rtt) → Reached ok (w.addPacket lostPacket sendTime rtt)
  | updateStats {w that : StatsWindow} : Reached ok w → Reached ok that →
      (∀ i < size, ok (w.updateFrom that i).ranged (that.ranged.stats i)) → Reached ok (w.updateStats that)

structure Inv (w : StatsWindow) : Prop where
  exact : w.Exact
  grid : (statsInterval : ℤ) ∣ w.ranged.windowStart
  entered : ∀ a, w.entered a ≤ w.accepted.length

structure Carries (x : SampleStats) (packets : List Sent) (base : ℤ) : Prop where
  inSlot : InSlot x base
  counts : Counts x packets
  sendTime : ∀ p ∈ packets, base ≤ p.sendTime ∧ p.sendTime < base + statsInterval

lemma Counts.merge {s x : SampleStats} {l packets : List Sent} (hs : Counts s l) (hx : Counts x packets) :
    Counts (s.merge x) (l ++ packets) := by
  constructor
  · rw [List.length_append, Nat.cast_add, ← hs.allPackets, ← hx.allPackets]
    rfl
  · rw [List.countP_append, Nat.cast_add, ← hs.lostPackets, ← hx.lostPackets]
    rfl

lemma merge_bounds {s x : SampleStats} (hx : InSlot x s.start) (hs : s.endTime = s.start + statsInterval) :
    (s.merge x).start = s.start ∧ (s.merge x).endTime = s.endTime :=
  ⟨min_eq_left hx.start.1, max_eq_left (hs ▸ hx.endTime)⟩

lemma within_congr {s s' : SampleStats} (hstart : s'.start = s.start) (hend : s'.endTime = s.endTime) :
    within s' = within s := by
  funext p
  rw [within, within, hstart, hend]

lemma filter_within {x s : SampleStats} {packets : List Sent} (hx : Carries x packets s.start)
    (hs : s.endTime = s.start + statsInterval) : packets.filter (within s) = packets := by
  apply List.filter_eq_self.mpr
  intro p hp
  simpa only [within, Bool.and_eq_true, decide_eq_true_eq, hs] using hx.sendTime p hp

lemma filter_other {x s : SampleStats} {packets : List Sent} {base : ℤ} {m d : ℕ}
    (hx : Carries x packets (base + d * statsInterval)) (hstart : s.start = base + m * statsInterval)
    (hend : s.endTime = base + m * statsInterval + statsInterval) (hm : m ≠ d) :
    packets.filter (within s) = [] := by
  apply List.filter_eq_nil_iff.mpr
  intro p hp
  have hsent := hx.sendTime p hp
  have hinterval : (statsInterval : ℤ) = 50000000 := by decide
  simp only [within, Bool.and_eq_true, decide_eq_true_eq, hstart, hend, hinterval] at hsent ⊢
  omega

def since (w : StatsWindow) (m : ℕ) : List Sent :=
  if m < size then w.accepted.drop (w.entered (w.ranged.startIndex + m)) else []

lemma Exact.counts_extended {w : StatsWindow} (hw : w.Exact) (m : ℕ) :
    Counts (w.ranged.extended m) ((w.since m).filter (within (w.ranged.extended m))) := by
  by_cases hm : m < size
  · rw [since, extended, if_pos hm, if_pos hm]
    exact hw.counts m hm
  · rw [since, extended, if_neg hm, if_neg hm]
    exact ⟨rfl, rfl⟩

lemma Inv.drop_add {w : StatsWindow} (hw : w.Inv) {x : SampleStats} (packets : List Sent)
    (h : w.ranged.Accepts x) (m : ℕ) :
    (w.add x packets).accepted.drop ((w.add x packets).entered (w.ranged.startIndex + m)) =
      w.since m ++ packets := by
  by_cases hm : m < size
  · have hlt : w.ranged.startIndex + m < w.ranged.startIndex + size := Nat.add_lt_add_left hm _
    simp only [add, since, if_pos h, if_pos hlt, if_pos hm]
    exact List.drop_append_of_le_length (hw.entered _)
  · have hge : ¬ w.ranged.startIndex + m < w.ranged.startIndex + size := by omega
    simp only [add, since, if_pos h, if_neg hge, if_neg hm]
    exact List.drop_left

lemma Inv.slot_add {w : StatsWindow} (hw : w.Inv) {x : SampleStats} {packets : List Sent} {base : ℤ}
    (hx : Carries x packets base) (h : w.ranged.Accepts x) {k : ℕ} (hk : k < size)
    (hnear : w.ranged.distance x ≤ 2 * size) :
    let m := k + (w.ranged.distance x + 1 - size)
    ((w.add x packets).ranged.slot k).start = w.ranged.windowStart + m * statsInterval ∧
      ((w.add x packets).ranged.slot k).endTime = w.ranged.windowStart + m * statsInterval + statsInterval ∧
      Counts ((w.add x packets).ranged.slot k)
        ((w.since m ++ packets).filter (within ((w.add x packets).ranged.slot k))) := by
  intro m
  obtain ⟨-, hslot⟩ := updateSample_extended hw.exact.bounds h hnear
  have hbase := distance_of_inSlot h hw.grid hx.inSlot
  obtain ⟨hstart, hend⟩ := hw.exact.bounds.extended m
  have hcounts := hw.exact.counts_extended m
  rw [show (w.add x packets).ranged.slot k = (w.ranged.updateSample x).slot k from rfl, hslot k hk]
  by_cases hm : m = w.ranged.distance x
  · have hs : (w.ranged.extended m).start = base := by rw [hstart, hm, hbase]
    have hsend : (w.ranged.extended m).endTime = (w.ranged.extended m).start + statsInterval := by
      rw [hend, hstart]
    rw [← hs] at hx
    obtain ⟨hmin, hmax⟩ := merge_bounds hx.inSlot hsend
    rw [if_pos hm, ← hm, hmin, hmax, within_congr hmin hmax, List.filter_append, filter_within hx hsend]
    exact ⟨hstart, hend, hcounts.merge hx.counts⟩
  · rw [hbase] at hx
    rw [if_neg hm, List.filter_append, filter_other hx hstart hend hm, List.append_nil]
    exact ⟨hstart, hend, hcounts⟩

lemma Inv.add {w : StatsWindow} (hw : w.Inv) {x : SampleStats} {packets : List Sent} {base : ℤ}
    (hx : Carries x packets base) (hnear : w.ranged.Near x) : (w.add x packets).Inv := by
  by_cases h : w.ranged.Accepts x
  · obtain ⟨hindex, -⟩ := updateSample_extended hw.exact.bounds h (hnear h)
    have hslot := fun k (hk : k < size) => hw.slot_add hx h hk (hnear h)
    have hzero : (w.add x packets).ranged.windowStart = _ := (hslot 0 (by decide)).1
    refine ⟨⟨⟨fun k hk => ?_, fun k hk => ?_⟩, fun k hk => ?_⟩, ?_, fun a => ?_⟩
    · rw [(hslot k hk).1, hzero]
      push_cast
      ring
    · rw [(hslot k hk).2.1, (hslot k hk).1]
    · have hdrop := hw.drop_add packets h (k + (w.ranged.distance x + 1 - size))
      rw [held, show (w.add x packets).ranged.startIndex = _ from hindex, Nat.add_assoc,
        Nat.add_comm _ k, hdrop]
      exact (hslot k hk).2.2
    · rw [hzero]
      exact dvd_add hw.grid (Dvd.intro_left _ rfl)
    · have hle := hw.entered a
      simp only [StatsWindow.add, if_pos h, List.length_append]
      split_ifs <;> omega
  · have hranged := updateSample_of_not_accepts h
    refine ⟨⟨?_, fun k hk => ?_⟩, ?_, fun a => ?_⟩
    · rw [StatsWindow.add, hranged]
      exact hw.exact.bounds
    · have hlt : w.ranged.startIndex + k < w.ranged.startIndex + size := Nat.add_lt_add_left hk _
      simp only [held, StatsWindow.add, hranged, if_neg h, if_pos hlt]
      exact hw.exact.counts k hk
    · rw [StatsWindow.add, hranged]
      exact hw.grid
    · have hle := hw.entered a
      simp only [StatsWindow.add, if_neg h]
      split_ifs <;> omega

lemma inv_create (now : ℤ) : (create now).Inv := by
  have hslot : ∀ k < size, (TimeRangedStats.create now).slot k =
      emptySlot (now.tdiv second * second + k * statsInterval) := fun k hk => by
    rw [slot, TimeRangedStats.create, Nat.zero_add, Nat.mod_eq_of_lt hk]
  have hzero : (TimeRangedStats.create now).windowStart = now.tdiv second * second := by
    rw [windowStart, hslot 0 (by decide)]
    simp [emptySlot]
  refine ⟨⟨⟨fun k hk => ?_, fun k hk => ?_⟩, fun k hk => ?_⟩, ?_, fun a => le_rfl⟩
  · rw [create, hzero, hslot k hk, emptySlot]
  · rw [create, hslot k hk, emptySlot]
  · rw [create, hslot k hk, held]
    exact ⟨rfl, rfl⟩
  · rw [create, hzero]
    exact (show (statsInterval : ℤ) ∣ second by decide).mul_left _

lemma carries_sample (lostPacket : Bool) (sendTime rtt : ℤ) :
    Carries (sample lostPacket sendTime rtt) [⟨lostPacket, sendTime⟩] (sendTime / statsInterval * statsInterval) := by
  have hpos : (0 : ℤ) < statsInterval := by decide
  have hle := Int.ediv_mul_le sendTime hpos.ne'
  have hlt := Int.lt_ediv_add_one_mul_self sendTime hpos
  rw [add_mul, one_mul] at hlt
  refine ⟨⟨Dvd.intro_left _ rfl, ⟨hle, hlt⟩, hlt.le⟩, ⟨rfl, ?_⟩, List.forall_mem_singleton.mpr ⟨hle, hlt⟩⟩
  cases lostPacket <;> rfl

lemma Inv.carries_slot {w : StatsWindow} (hw : w.Inv) {k : ℕ} (hk : k < size) :
    Carries (w.ranged.slot k) (w.held k) (w.ranged.slot k).start := by
  have hend := hw.exact.bounds.endTime k hk
  have hpos : (0 : ℤ) < statsInterval := by decide
  refine ⟨⟨?_, ⟨le_rfl, lt_add_of_pos_right _ hpos⟩, hend.le⟩, hw.exact.counts k hk, fun p hp => ?_⟩
  · rw [hw.exact.bounds.start k hk]
    exact dvd_add hw.grid (Dvd.intro_left _ rfl)
  · have hin := (List.mem_filter.mp hp).2
    simpa only [within, Bool.and_eq_true, decide_eq_true_eq, hend] using hin

lemma Inv.updateFrom {w that : StatsWindow} (hw : w.Inv) (hthat : that.Inv) {n : ℕ} (hn : n ≤ size)
    (hnear : ∀ i < size, (w.updateFrom that i).ranged.Near (that.ranged.stats i)) : (w.updateFrom that n).Inv := by
  induction n with
  | zero => exact hw
  | succ n ih =>
    obtain ⟨hposition, hstats⟩ := that.stats_eq_slot hn
    have hx := hthat.carries_slot hposition
    rw [← hstats] at hx
    have hnext := (ih (Nat.le_of_succ_le hn)).add hx (hnear n hn)
    rw [StatsWindow.updateFrom, List.range_succ, List.foldl_append]
    exact hnext

lemma Reached.inv {w : StatsWindow} (h : Reached Near w) : w.Inv := by
  induction h with
  | create now => exact inv_create now
  | addPacket lostPacket sendTime rtt _ hnear ih => exact ih.add (carries_sample lostPacket sendTime rtt) hnear
  | updateStats _ _ hnear ih ihthat => exact ih.updateFrom ihthat le_rfl hnear

lemma Inv.exact_add_iff {w : StatsWindow} (hw : w.Inv) {x : SampleStats} {packets : List Sent} {base : ℤ}
    (hx : Carries x packets base) : (w.add x packets).Exact ↔ w.ranged.Near x := by
  constructor
  · intro he hacc
    by_contra hfar
    exact not_bounds_of_far hw.exact.bounds hacc (not_le.mp hfar) he.bounds
  · intro hnear
    exact (hw.add hx hnear).exact

theorem exact_of_near {w : StatsWindow} (h : Reached Near w) :
    w.Exact ∧ ∀ (x : SampleStats) (packets : List Sent) (base : ℤ), Carries x packets base →
      ((w.add x packets).Exact ↔ w.ranged.Near x) :=
  ⟨h.inv.exact, fun _ _ _ hx => h.inv.exact_add_iff hx⟩

def lateWindow : StatsWindow := (create 0).addPacket true (201 * 50000000) 7

def busyWindow : StatsWindow := ((create 0).addPacket true 1000000000 7).addPacket false (200 * 50000000) 9

theorem exact_of_near_busy : busyWindow.Exact ∧
    ∀ (x : SampleStats) (packets : List Sent) (base : ℤ), Carries x packets base →
      ((busyWindow.add x packets).Exact ↔ busyWindow.ranged.Near x) :=
  exact_of_near (.addPacket _ _ _ (.addPacket _ _ _ (.create _) fun _ => by decide) fun _ => by decide)

theorem not_exact_of_late : ¬ ∀ w : StatsWindow, Reached (fun _ _ => True) w → w.Exact := by
  intro h
  have he := h lateWindow (.addPacket _ _ _ (.create _) trivial)
  exact absurd (he.bounds.start 98 (by decide)) (by decide)

end StatsWindow

end FastTransport.Protocol
