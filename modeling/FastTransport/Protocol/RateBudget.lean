import FastTransport.Protocol.Connection
import FastTransport.Protocol.SendOrder
import FastTransport.Protocol.SpeedController

/-! `Connection::GetPacketsToSend` under its rate budget: what a run returns between two
refreshes of the controller's time stamp. -/

namespace FastTransport.Protocol

open Lib.Runs

namespace SpeedController

lemma coeficient_bounds {diff : ℕ} (hc : coeficient diff ≠ 0) :
    coeficient diff * diff ≤ 100 * second ∧ 100 * second < 2 * (coeficient diff * diff) := by
  have hpos : 0 < diff := by
    apply Nat.pos_of_ne_zero
    rintro rfl
    exact hc (Nat.div_zero _)
  have hle : coeficient diff * diff ≤ 100 * second := Nat.div_mul_le_self _ _
  have hlt : 100 * second < diff * (coeficient diff + 1) := Nat.lt_mul_div_succ _ hpos
  have hone : diff ≤ diff * coeficient diff := Nat.le_mul_of_pos_right _ (Nat.pos_of_ne_zero hc)
  rw [Nat.mul_add_one] at hlt
  rw [Nat.mul_comm (coeficient diff)]
  exact ⟨by rw [Nat.mul_comm]; exact hle, by omega⟩

lemma scaledSpeed_eq {speed : ℕ} (hs : speed ≤ 2 ^ 40) : scaledSpeed speed = speed * 2000 := by
  have hration : ration = 20 := by decide
  simp only [scaledSpeed, hration, sizeLimit]
  omega

theorem number_bounds {speed diff : ℕ} (hs : speed ≤ 2 ^ 40) (hc : coeficient diff ≠ 0) :
    speed * diff / statsInterval ≤ scaledSpeed speed / coeficient diff ∧
      scaledSpeed speed / coeficient diff * statsInterval ≤ 2 * speed * diff := by
  obtain ⟨hle, hlt⟩ := coeficient_bounds hc
  rw [scaledSpeed_eq hs]
  have hmul : speed * 2000 / coeficient diff * coeficient diff ≤ speed * 2000 := Nat.div_mul_le_self _ _
  have htotal : 100 * second = 2000 * statsInterval := by decide
  rw [htotal] at hle hlt
  have hinterval : 0 < statsInterval := by decide
  constructor
  · rw [Nat.le_div_iff_mul_le (Nat.pos_of_ne_zero hc)]
    have hq : speed * diff / statsInterval * statsInterval ≤ speed * diff := Nat.div_mul_le_self _ _
    apply Nat.le_of_mul_le_mul_right _ hinterval
    calc speed * diff / statsInterval * coeficient diff * statsInterval
        = speed * diff / statsInterval * statsInterval * coeficient diff := Nat.mul_right_comm _ _ _
      _ ≤ speed * diff * coeficient diff := Nat.mul_le_mul_right _ hq
      _ = speed * (coeficient diff * diff) := by rw [Nat.mul_assoc, Nat.mul_comm diff]
      _ ≤ speed * (2000 * statsInterval) := Nat.mul_le_mul_left _ hle
      _ = speed * 2000 * statsInterval := (Nat.mul_assoc _ _ _).symm
  · apply Nat.le_of_mul_le_mul_right _ (show 0 < 2000 by decide)
    calc speed * 2000 / coeficient diff * statsInterval * 2000
        = speed * 2000 / coeficient diff * (2000 * statsInterval) := by
          rw [Nat.mul_assoc, Nat.mul_comm statsInterval]
      _ ≤ speed * 2000 / coeficient diff * (2 * (coeficient diff * diff)) := Nat.mul_le_mul_left _ hlt.le
      _ = speed * 2000 / coeficient diff * coeficient diff * (2 * diff) := by ring
      _ ≤ speed * 2000 * (2 * diff) := Nat.mul_le_mul_right _ hmul
      _ = 2 * speed * diff * 2000 := by ring

end SpeedController

structure PacedConnection where
  connection : Connection
  speedController : SpeedController

namespace PacedConnection

def withQueue (p : PacedConnection) (q : SendQueue) : PacedConnection :=
  { p with connection := { p.connection with sendQueue := q } }

def getPacketsToSend (p : PacedConnection) (now : ℕ) : List OutgoingPacket × PacedConnection :=
  let service := p.connection.sendQueue.getServicePacketsToSend
  let r := p.speedController.getNumberPacketToSend now
  if r.1 = 0 then
    (service.1, { p.withQueue service.2 with speedController := r.2 })
  else
    let data := service.2.getPacketsToSend r.1
    let left := if data.1.isEmpty then r.1 - data.1.length else 0
    (service.1 ++ data.1,
      { p.withQueue data.2 with speedController := r.2.revertNumberPacketToSend left })

structure Pays (p : PacedConnection) (now data : ℕ) (t : PacedConnection) : Prop where
  length : (p.getPacketsToSend now).1.length = p.connection.sendQueue.serviceNeedToSend.length + data
  state : t = (p.getPacketsToSend now).2
  lastSend : t.speedController.lastSend = (p.speedController.getNumberPacketToSend now).2.lastSend
  none : (p.speedController.getNumberPacketToSend now).1 = 0 → data = 0 ∧
    t.speedController.number = (p.speedController.getNumberPacketToSend now).2.number
  some : (p.speedController.getNumberPacketToSend now).1 ≠ 0 →
    data + t.speedController.number ≤ (p.speedController.getNumberPacketToSend now).1

lemma getPacketsToSend_pays (p : PacedConnection) (now : ℕ) :
    ∃ data, p.Pays now data (p.getPacketsToSend now).2 := by
  by_cases hr : (p.speedController.getNumberPacketToSend now).1 = 0
  · refine ⟨0, ?_, rfl, ?_, fun _ => ⟨rfl, ?_⟩, fun h => absurd hr h⟩ <;>
      simp only [getPacketsToSend, if_pos hr]
    rfl
  · let sent := (p.connection.sendQueue.getServicePacketsToSend.2.getPacketsToSend
      (p.speedController.getNumberPacketToSend now).1).1
    have hlen : sent.length ≤ (p.speedController.getNumberPacketToSend now).1 := by
      have ho := p.connection.sendQueue.getServicePacketsToSend.2.getPacketsToSend_inOrder
        (p.speedController.getNumberPacketToSend now).1
      exact ho.length.trans_le (Nat.min_le_left _ _)
    refine ⟨sent.length, ?_, rfl, ?_, fun h => absurd h hr, fun _ => ?_⟩ <;>
      simp only [getPacketsToSend, if_neg hr]
    · exact List.length_append
    · rfl
    · change sent.length + (if sent.isEmpty then _ - sent.length else 0) ≤ _
      split_ifs
      · exact (Nat.add_sub_cancel' hlen).le
      · exact hlen

theorem getPacketsToSend_eq (p : PacedConnection) (now : ℕ) :
    (p.getPacketsToSend now).1.map (fun x => { x with sendTime := now }) =
      (p.connection.getPacketsToSend (p.speedController.getNumberPacketToSend now).1 now).1 ∧
    (p.getPacketsToSend now).2.connection =
      (p.connection.getPacketsToSend (p.speedController.getNumberPacketToSend now).1 now).2 := by
  by_cases hr : (p.speedController.getNumberPacketToSend now).1 = 0
  · simp [getPacketsToSend, Connection.getPacketsToSend, hr, withQueue, SendQueue.getPacketsToSend,
      SendQueue.popResend]
  · simp only [getPacketsToSend, if_neg hr, Connection.getPacketsToSend, withQueue, and_self]

end PacedConnection

structure Period where
  elapsed : ℕ
  speed : ℕ
  number : ℕ
  sent : ℕ

structure BudgetHistory where
  paced : PacedConnection
  clock : ℕ
  current : Period
  past : List Period

namespace BudgetHistory

open SpeedController

def create (connection : Connection) (now : ℕ) : BudgetHistory :=
  ⟨⟨connection, SpeedController.create now⟩, now, ⟨0, 0, 0, 0⟩, []⟩

inductive Action
  | getPacketsToSend (now : ℕ)
  | sendPackets (packets : List Packet) (needAck : Bool)
  | reSendPackets (packets : List OutgoingPacket)
  | onMinSpeedChanged (minSpeed : ℕ)
  | onMaxSpeedChanged (maxSpeed : ℕ)

def record (s : BudgetHistory) (now : ℕ) (data : ℕ) (lastSend : ℕ) : Period × List Period :=
  let c := s.paced.speedController
  if lastSend = c.lastSend then ({ s.current with sent := s.current.sent + data }, s.past)
  else (⟨now - c.lastSend, c.clampedSpeed, (c.getNumberPacketToSend now).1, data⟩, s.current :: s.past)

def step (s : BudgetHistory) : Action → Option BudgetHistory
  | .getPacketsToSend now =>
    if s.clock ≤ now then
      let r := s.paced.getPacketsToSend now
      let data := r.1.length - s.paced.connection.sendQueue.serviceNeedToSend.length
      let periods := s.record now data r.2.speedController.lastSend
      some { paced := r.2, clock := now, current := periods.1, past := periods.2 }
    else none
  | .sendPackets packets needAck =>
    some { s with paced := s.paced.withQueue (s.paced.connection.sendQueue.sendPackets packets needAck) }
  | .reSendPackets packets =>
    some { s with paced := s.paced.withQueue (s.paced.connection.sendQueue.reSendPackets packets) }
  | .onMinSpeedChanged minSpeed =>
    if minSpeed ≤ s.paced.speedController.maxSpeed then
      some { s with paced := { s.paced with speedController := s.paced.speedController.onMinSpeedChanged minSpeed } }
    else none
  | .onMaxSpeedChanged maxSpeed =>
    if s.paced.speedController.minSpeed ≤ maxSpeed then
      some { s with paced := { s.paced with speedController := s.paced.speedController.onMaxSpeedChanged maxSpeed } }
    else none

def InBudget (p : Period) : Prop :=
  p.sent ≤ p.number ∧ (p.speed ≤ 2 ^ 40 →
    p.speed * p.elapsed / statsInterval ≤ p.number ∧ p.number * statsInterval ≤ 2 * p.speed * p.elapsed)

structure Inv (s : BudgetHistory) : Prop where
  budget : s.current.sent + s.paced.speedController.number ≤ s.current.number
  current : InBudget s.current
  past : ∀ p ∈ s.past, InBudget p

lemma inv_create (connection : Connection) (now : ℕ) : (create connection now).Inv where
  budget := le_rfl
  current := ⟨le_rfl, fun _ => ⟨by simp [create], by simp [create]⟩⟩
  past := fun p hp => by cases hp

lemma Inv.spend {s : BudgetHistory} (hs : s.Inv) {data number : ℕ}
    (h : data + number ≤ s.paced.speedController.number) :
    s.current.sent + data + number ≤ s.current.number ∧ InBudget { s.current with sent := s.current.sent + data } := by
  have hb := hs.budget
  refine ⟨by omega, ?_, hs.current.2⟩
  dsimp only
  omega

lemma Inv.getPacketsToSend {s t : BudgetHistory} (hs : s.Inv) {now : ℕ}
    (h : s.step (.getPacketsToSend now) = some t) : t.Inv := by
  simp only [step] at h
  split_ifs at h
  cases h
  obtain ⟨data, hlength, -, hlast, hnone, hsome⟩ := s.paced.getPacketsToSend_pays now
  have ha := s.paced.speedController.getNumberPacketToSend_answers now
  rw [hlength, Nat.add_sub_cancel_left, hlast]
  generalize hr : s.paced.speedController.getNumberPacketToSend now = r at ha hnone hsome ⊢
  generalize s.paced.getPacketsToSend now = u at hnone hsome ⊢
  have hsame : ∀ {number}, data + number ≤ s.paced.speedController.number → u.2.speedController.number = number →
      r.2.lastSend = s.paced.speedController.lastSend →
      Inv ⟨u.2, now, (s.record now data r.2.lastSend).1, (s.record now data r.2.lastSend).2⟩ := by
    intro number hle hnumber hstamp
    obtain ⟨hbudget, hcurrent⟩ := hs.spend hle
    simp only [record, if_pos hstamp]
    exact ⟨hnumber ▸ hbudget, hcurrent, hs.past⟩
  cases ha with
  | early _ =>
    by_cases hz : s.paced.speedController.number = 0
    · obtain ⟨rfl, hnumber⟩ := hnone hz
      exact hsame (Nat.zero_add _).le hnumber rfl
    · exact hsame (hsome hz) rfl rfl
  | late _ _ =>
    obtain ⟨rfl, hnumber⟩ := hnone rfl
    exact hsame (Nat.zero_add _).le hnumber rfl
  | spent _ _ _ =>
    obtain ⟨rfl, hnumber⟩ := hnone rfl
    exact hsame (Nat.zero_le _) hnumber rfl
  | refreshed hd hc hn =>
    have hstamp : now ≠ s.paced.speedController.lastSend := by
      have hpos : 0 < sendInterval := by decide
      omega
    have hspent := hsome hn
    simp only [record, if_neg hstamp, hr]
    refine ⟨hspent, ⟨?_, fun hspeed => number_bounds hspeed hc⟩, List.forall_mem_cons.mpr ⟨hs.current, hs.past⟩⟩
    exact (Nat.le_add_right _ _).trans hspent

lemma step_inv (s : BudgetHistory) (a : Action) (t : BudgetHistory) (hs : s.Inv) (h : s.step a = some t) :
    t.Inv := by
  cases a with
  | getPacketsToSend now => exact hs.getPacketsToSend h
  | sendPackets packets needAck =>
    cases h
    exact ⟨hs.budget, hs.current, hs.past⟩
  | reSendPackets packets =>
    cases h
    exact ⟨hs.budget, hs.current, hs.past⟩
  | onMinSpeedChanged minSpeed =>
    simp only [step] at h
    split_ifs at h
    cases h
    exact ⟨hs.budget, hs.current, hs.past⟩
  | onMaxSpeedChanged maxSpeed =>
    simp only [step] at h
    split_ifs at h
    cases h
    exact ⟨hs.budget, hs.current, hs.past⟩

theorem periods_in_budget {connection : Connection} {now : ℕ} {as : List Action} {s : BudgetHistory}
    (h : run step (create connection now) as = some s) : ∀ p ∈ s.current :: s.past, InBudget p := by
  have hs := run_invariant step_inv (inv_create connection now) h
  exact List.forall_mem_cons.mpr ⟨hs.current, hs.past⟩

theorem periods_in_budget_idle : ∃ s : BudgetHistory,
    (∀ p ∈ s.current :: s.past, InBudget p) ∧ s.current.number = 2000000 ∧ s.current.sent = 2 ∧
      s.past.length = 2 := by
  let p := Packet.ofPayload [7]
  have hrun : run step (create (Connection.create .dataState ⟨1, 1⟩ 0 []) 0)
      [.onMaxSpeedChanged 50000, .getPacketsToSend second, .sendPackets [p, p] true,
        .getPacketsToSend (second + 5), .onMaxSpeedChanged 100000, .sendPackets [p] false,
        .getPacketsToSend (2 * second), .sendPackets [p, p] true, .getPacketsToSend (2 * second)] = some _ := rfl
  exact ⟨_, periods_in_budget hrun, by decide⟩

end BudgetHistory

end FastTransport.Protocol
