import FastTransport.Lib.Runs
import FastTransport.Protocol.TimeRangedStats

/-! `SpeedController`: how many packets may be sent now. Times are in nanoseconds. -/

namespace FastTransport.Protocol

open Lib.Runs

def sendInterval : ℕ := statsInterval / 2

/-- `size_t` is 64 bits wide. -/
def sizeLimit : ℕ := 2 ^ 64

def clamp (value low high : ℕ) : ℕ :=
  if value < low then low else if high < value then high else value

/-- What `StableState::Run` stores, the only state the controller is ever in. -/
def stableSpeed : ℕ := 100000

structure SpeedController where
  lastSend : ℕ
  realSpeed : ℕ
  minSpeed : ℕ
  maxSpeed : ℕ
  number : ℕ

namespace SpeedController

def create (now : ℕ) : SpeedController := ⟨now, 0, 0, 0, 0⟩

def clampedSpeed (c : SpeedController) : ℕ := clamp stableSpeed c.minSpeed c.maxSpeed

def coeficient (diff : ℕ) : ℕ := 100 * second / diff

def ration : ℕ := second / statsInterval

def scaledSpeed (speed : ℕ) : ℕ := speed * ration % sizeLimit * 100 % sizeLimit

def getNumberPacketToSend (c : SpeedController) (now : ℕ) : ℕ × SpeedController :=
  let diff := now - c.lastSend
  if diff < sendInterval then (c.number, c)
  else
    let c := { c with realSpeed := stableSpeed }
    if coeficient diff ≠ 0 then
      let number := scaledSpeed c.clampedSpeed / coeficient diff
      (number, { c with number := number, lastSend := if number ≠ 0 then now else c.lastSend })
    else (0, c)

def revertNumberPacketToSend (c : SpeedController) (number : ℕ) : SpeedController :=
  { c with number := number }

def onMinSpeedChanged (c : SpeedController) (minSpeed : ℕ) : SpeedController :=
  { c with minSpeed := minSpeed }

def onMaxSpeedChanged (c : SpeedController) (maxSpeed : ℕ) : SpeedController :=
  { c with maxSpeed := maxSpeed }

def InTime (c : SpeedController) (now : ℕ) : Prop :=
  now - c.lastSend ≤ 100 * second ∧ coeficient (now - c.lastSend) ≤ scaledSpeed c.clampedSpeed

inductive Answers (c : SpeedController) (now : ℕ) : ℕ × SpeedController → Prop
  | early : now - c.lastSend < sendInterval → Answers c now (c.number, c)
  | late : sendInterval ≤ now - c.lastSend → coeficient (now - c.lastSend) = 0 →
      Answers c now (0, { c with realSpeed := stableSpeed })
  | spent : sendInterval ≤ now - c.lastSend → coeficient (now - c.lastSend) ≠ 0 →
      scaledSpeed c.clampedSpeed / coeficient (now - c.lastSend) = 0 →
      Answers c now (0, { c with realSpeed := stableSpeed, number := 0 })
  | refreshed : sendInterval ≤ now - c.lastSend → coeficient (now - c.lastSend) ≠ 0 →
      scaledSpeed c.clampedSpeed / coeficient (now - c.lastSend) ≠ 0 →
      Answers c now (scaledSpeed c.clampedSpeed / coeficient (now - c.lastSend),
        { c with realSpeed := stableSpeed, lastSend := now
                 number := scaledSpeed c.clampedSpeed / coeficient (now - c.lastSend) })

lemma getNumberPacketToSend_answers (c : SpeedController) (now : ℕ) :
    c.Answers now (c.getNumberPacketToSend now) := by
  by_cases hd : now - c.lastSend < sendInterval
  · simp only [getNumberPacketToSend, if_pos hd]
    exact .early hd
  · by_cases hc : coeficient (now - c.lastSend) = 0
    · simp only [getNumberPacketToSend, if_neg hd, hc, ne_eq, not_true_eq_false, if_false]
      exact .late (not_lt.mp hd) hc
    · simp only [getNumberPacketToSend, if_neg hd, ne_eq, hc, not_false_eq_true, if_true]
      by_cases hn : scaledSpeed (clamp stableSpeed c.minSpeed c.maxSpeed) / coeficient (now - c.lastSend) = 0
      · have ha : c.Answers now _ := .spent (not_lt.mp hd) hc hn
        simpa only [clampedSpeed, hn, not_true_eq_false, if_false] using ha
      · have ha : c.Answers now _ := .refreshed (not_lt.mp hd) hc hn
        simpa only [clampedSpeed, hn, not_false_eq_true, if_true] using ha

lemma coeficient_ne_zero {diff : ℕ} (hd : 0 < diff) : coeficient diff ≠ 0 ↔ diff ≤ 100 * second := by
  rw [coeficient, Nat.div_ne_zero_iff]
  exact ⟨fun h => h.2, fun h => ⟨hd.ne', h⟩⟩

theorem getNumberPacketToSend_pos_iff (c : SpeedController) {now : ℕ}
    (hd : sendInterval ≤ now - c.lastSend) :
    1 ≤ (c.getNumberPacketToSend now).1 ↔ c.InTime now := by
  have hpos : 0 < now - c.lastSend := lt_of_lt_of_le (by decide) hd
  have hc := coeficient_ne_zero hpos
  have ha := c.getNumberPacketToSend_answers now
  generalize c.getNumberPacketToSend now = r at ha
  cases ha with
  | early h => omega
  | late _ h0 =>
    have hlate : ¬ now - c.lastSend ≤ 100 * second := fun hle => hc.mpr hle h0
    simp [InTime, hlate]
  | spent _ h0 hn =>
    have hlt : ¬ coeficient (now - c.lastSend) ≤ scaledSpeed c.clampedSpeed := fun hle =>
      (Nat.div_pos hle (Nat.pos_of_ne_zero h0)).ne' hn
    simp [InTime, hlt]
  | refreshed _ h0 hn =>
    have hle : coeficient (now - c.lastSend) ≤ scaledSpeed c.clampedSpeed := (Nat.div_ne_zero_iff.mp hn).2
    exact iff_of_true (Nat.one_le_iff_ne_zero.mpr hn) ⟨hc.mp h0, hle⟩

end SpeedController

structure Answer where
  elapsed : ℕ
  speed : ℕ
  number : ℕ

def Answer.Served (a : Answer) : Prop := statsInterval ≤ a.elapsed → 1 ≤ a.speed → 1 ≤ a.number

structure RateHistory where
  controller : SpeedController
  clock : ℕ
  answers : List Answer

namespace RateHistory

open SpeedController

def create (now : ℕ) : RateHistory := ⟨SpeedController.create now, now, []⟩

inductive Action
  | getNumberPacketToSend (now : ℕ)
  | revertNumberPacketToSend (number : ℕ)
  | onMinSpeedChanged (minSpeed : ℕ)
  | onMaxSpeedChanged (maxSpeed : ℕ)

def step (s : RateHistory) : Action → Option RateHistory
  | .getNumberPacketToSend now =>
    if s.clock ≤ now then
      let r := s.controller.getNumberPacketToSend now
      let answer := ⟨now - s.controller.lastSend, s.controller.clampedSpeed, r.1⟩
      some { controller := r.2, clock := now, answers := s.answers ++ [answer] }
    else none
  | .revertNumberPacketToSend number =>
    some { s with controller := s.controller.revertNumberPacketToSend number }
  | .onMinSpeedChanged minSpeed =>
    if minSpeed ≤ s.controller.maxSpeed then
      some { s with controller := s.controller.onMinSpeedChanged minSpeed }
    else none
  | .onMaxSpeedChanged maxSpeed =>
    if s.controller.minSpeed ≤ maxSpeed then
      some { s with controller := s.controller.onMaxSpeedChanged maxSpeed }
    else none

def CallInTime (s : RateHistory) : Action → Prop
  | .getNumberPacketToSend now => statsInterval ≤ now - s.controller.lastSend →
      1 ≤ s.controller.clampedSpeed → s.controller.InTime now
  | _ => True

lemma step_served {s t : RateHistory} {a : Action} (h : s.step a = some t) :
    (∀ x ∈ t.answers, x.Served) ↔ (∀ x ∈ s.answers, x.Served) ∧ s.CallInTime a := by
  cases a with
  | getNumberPacketToSend now =>
    simp only [step] at h
    split_ifs at h
    cases h
    simp only [List.forall_mem_append, List.forall_mem_singleton, Answer.Served, CallInTime]
    refine and_congr_right fun _ => forall_congr' fun hd => forall_congr' fun _ => ?_
    exact s.controller.getNumberPacketToSend_pos_iff (le_trans (by decide) hd)
  | revertNumberPacketToSend number =>
    cases h
    exact (and_iff_left trivial).symm
  | onMinSpeedChanged minSpeed =>
    simp only [step] at h
    split_ifs at h
    cases h
    exact (and_iff_left trivial).symm
  | onMaxSpeedChanged maxSpeed =>
    simp only [step] at h
    split_ifs at h
    cases h
    exact (and_iff_left trivial).symm

lemma served_iff_path {s t : RateHistory} {as : List Action} (h : run step s as = some t) :
    (∀ x ∈ t.answers, x.Served) ↔ (∀ x ∈ s.answers, x.Served) ∧ Path step CallInTime s as t := by
  induction as generalizing s with
  | nil =>
    cases h
    exact ⟨fun hs => ⟨hs, .nil _⟩, fun hs => hs.1⟩
  | cons a as ih =>
    obtain ⟨u, hu, hr⟩ := run_cons_eq_some.mp h
    rw [ih hr, step_served hu]
    constructor
    · rintro ⟨⟨hs, ha⟩, hp⟩
      exact ⟨hs, .cons ha hu hp⟩
    · rintro ⟨hs, hp⟩
      cases hp with
      | cons ha hu' hp =>
        cases hu.symm.trans hu'
        exact ⟨⟨hs, ha⟩, hp⟩

theorem served_iff_in_time {now : ℕ} {as : List Action} {s : RateHistory}
    (h : run step (create now) as = some s) :
    (∀ x ∈ s.answers, x.Served) ↔ Path step CallInTime (create now) as s :=
  (served_iff_path h).trans (and_iff_right fun x hx => by cases hx)

theorem served_iff_in_time_running : ∃ s : RateHistory,
    ((∀ x ∈ s.answers, x.Served) ↔ Path step CallInTime (create 7) [.onMaxSpeedChanged 200000,
      .getNumberPacketToSend (second + 7), .revertNumberPacketToSend 0,
      .getNumberPacketToSend (2 * second + 7)] s) ∧
      s.answers.map Answer.number = [2000000, 2000000] := by
  apply Exists.intro
  constructor
  · apply served_iff_in_time
    rfl
  · rfl

theorem not_served_after_stall : ¬ ∀ (now : ℕ) (as : List Action) (s : RateHistory),
    run step (create now) as = some s → ∀ x ∈ s.answers, x.Served := by
  intro h
  have hs := h 0 [.onMaxSpeedChanged 200000, .getNumberPacketToSend (100 * second + 1)] _ rfl _
    List.mem_cons_self
  exact absurd (hs (by decide) (by decide)) (by decide)

def Stalled (s : RateHistory) : Prop := 100 * second < s.clock - s.controller.lastSend

lemma step_stalled {s t : RateHistory} {a : Action} (hs : s.Stalled) (h : s.step a = some t) :
    t.Stalled ∧ ∃ more, t.answers = s.answers ++ more ∧ ∀ x ∈ more, x.number = 0 := by
  cases a with
  | getNumberPacketToSend now =>
    simp only [step] at h
    split_ifs at h with hclock
    cases h
    have hlong : 100 * second < now - s.controller.lastSend := lt_of_lt_of_le hs (Nat.sub_le_sub_right hclock _)
    have hinterval : ¬ now - s.controller.lastSend < sendInterval :=
      not_lt.mpr (le_trans (by decide) hlong.le)
    have hzero : coeficient (now - s.controller.lastSend) = 0 := Nat.div_eq_of_lt hlong
    simp only [getNumberPacketToSend, if_neg hinterval, hzero, ne_eq, not_true_eq_false, if_false]
    exact ⟨hlong, _, rfl, List.forall_mem_singleton.mpr rfl⟩
  | revertNumberPacketToSend number =>
    cases h
    exact ⟨hs, [], (List.append_nil _).symm, fun x hx => by cases hx⟩
  | onMinSpeedChanged minSpeed =>
    simp only [step] at h
    split_ifs at h
    cases h
    exact ⟨hs, [], (List.append_nil _).symm, fun x hx => by cases hx⟩
  | onMaxSpeedChanged maxSpeed =>
    simp only [step] at h
    split_ifs at h
    cases h
    exact ⟨hs, [], (List.append_nil _).symm, fun x hx => by cases hx⟩

/-- Once a call has come more than 100 s after the last refresh, no later call gets a packet. -/
theorem stalled_forever {s t : RateHistory} {as : List Action} (hs : s.Stalled) (h : run step s as = some t) :
    ∃ more, t.answers = s.answers ++ more ∧ ∀ x ∈ more, x.number = 0 := by
  induction as generalizing s with
  | nil =>
    cases h
    exact ⟨[], (List.append_nil _).symm, fun x hx => by cases hx⟩
  | cons a as ih =>
    obtain ⟨u, hu, hr⟩ := run_cons_eq_some.mp h
    obtain ⟨hus, first, hfirst, hzero⟩ := step_stalled hs hu
    obtain ⟨rest, hrest, hzeros⟩ := ih hus hr
    refine ⟨first ++ rest, ?_, List.forall_mem_append.mpr ⟨hzero, hzeros⟩⟩
    rw [hrest, hfirst, List.append_assoc]

end RateHistory

end FastTransport.Protocol
