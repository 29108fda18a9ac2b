import FastTransport.Protocol.Packet

/-! `RecvQueue`: a ring of packets that arrived out of order, drained in order to the user. -/

namespace FastTransport.Protocol

inductive RecvQueueStatus
  | full | duplicated | new
  deriving DecidableEq, Repr

structure RecvQueue where
  queue : ℕ → Option Packet
  data : List Packet
  selectiveAcks : List ℕ
  beginFullRecievedAck : ℕ

namespace RecvQueue

def queueSize : ℕ := 250000

def create : RecvQueue := ⟨fun _ => none, [], [], 1⟩

/-- The packet comes back unless it is stored; the largest number makes the code throw. -/
def addPacket (q : RecvQueue) (packet : Packet) :
    Option ((RecvQueueStatus × Option Packet) × RecvQueue) :=
  let packetNumber := packet.seqNumber
  if packetNumber = seqLimit - 1 then none
  else if packetNumber < q.beginFullRecievedAck then
    some ((.duplicated, some packet), { q with selectiveAcks := q.selectiveAcks ++ [packetNumber] })
  else if queueSize ≤ packetNumber - q.beginFullRecievedAck then some ((.full, some packet), q)
  else if (q.queue (packetNumber % queueSize)).isSome then
    some ((.duplicated, some packet), { q with selectiveAcks := q.selectiveAcks ++ [packetNumber] })
  else
    some ((.new, none),
      { q with selectiveAcks := q.selectiveAcks ++ [packetNumber]
               queue := Function.update q.queue (packetNumber % queueSize) (some packet) })

def takeNext (q : RecvQueue) (packet : Packet) : RecvQueue :=
  { q with queue := Function.update q.queue (q.beginFullRecievedAck % queueSize) none
           data := q.data ++ [packet]
           beginFullRecievedAck := q.beginFullRecievedAck + 1 }

def proccessLoop : ℕ → RecvQueue → Option RecvQueue
  | 0, q => some q
  | fuel + 1, q =>
    if q.beginFullRecievedAck = seqLimit - 1 then none
    else
      match q.queue (q.beginFullRecievedAck % queueSize) with
      | none => some q
      | some packet => proccessLoop fuel (q.takeNext packet)

def proccessUnorderedPackets (q : RecvQueue) : Option RecvQueue := q.proccessLoop (queueSize + 1)

def getSelectiveAcks (q : RecvQueue) : List ℕ × RecvQueue :=
  (q.selectiveAcks, { q with selectiveAcks := [] })

def getLastAck (q : RecvQueue) : ℕ := q.beginFullRecievedAck - 1

def recvUserData (q : RecvQueue) : List Packet × RecvQueue := (q.data, { q with data := [] })

structure Inv (q : RecvQueue) : Prop where
  begin_pos : 1 ≤ q.beginFullRecievedAck
  slot : ∀ i p, q.queue i = some p → p.seqNumber % queueSize = i ∧
    q.beginFullRecievedAck ≤ p.seqNumber ∧ p.seqNumber < q.beginFullRecievedAck + queueSize

def Received (q : RecvQueue) (n : ℕ) : Prop :=
  n < q.beginFullRecievedAck ∨ ∃ p, q.queue (n % queueSize) = some p ∧ p.seqNumber = n

lemma inv_create : create.Inv := ⟨le_rfl, fun _ _ h => by cases h⟩

lemma received_of_le_getLastAck {q : RecvQueue} (hq : q.Inv) {n : ℕ} (h : n ≤ q.getLastAck) :
    q.Received n := by
  have hb := hq.begin_pos
  rw [getLastAck] at h
  exact Or.inl (by omega)

lemma mod_window {a b n : ℕ} (h : a % queueSize = b % queueSize) (ha : n ≤ a) (ha' : a < n + queueSize)
    (hb : n ≤ b) (hb' : b < n + queueSize) : a = b := by
  simp only [queueSize] at *
  omega

lemma addPacket_cases {q q' : RecvQueue} {p : Packet} {r : RecvQueueStatus × Option Packet}
    (h : q.addPacket p = some (r, q')) :
    q' = q ∨
    (q' = { q with selectiveAcks := q.selectiveAcks ++ [p.seqNumber] } ∧
      (p.seqNumber < q.beginFullRecievedAck ∨
        (q.beginFullRecievedAck ≤ p.seqNumber ∧ p.seqNumber < q.beginFullRecievedAck + queueSize ∧
          ∃ p', q.queue (p.seqNumber % queueSize) = some p'))) ∨
    (q' = { q with selectiveAcks := q.selectiveAcks ++ [p.seqNumber]
                   queue := Function.update q.queue (p.seqNumber % queueSize) (some p) } ∧
      q.beginFullRecievedAck ≤ p.seqNumber ∧ p.seqNumber < q.beginFullRecievedAck + queueSize ∧
        q.queue (p.seqNumber % queueSize) = none) := by
  simp only [addPacket] at h
  split_ifs at h with h1 h2 h3 h4 <;> cases h
  · exact Or.inr (Or.inl ⟨rfl, Or.inl h2⟩)
  · exact Or.inl rfl
  · exact Or.inr (Or.inl ⟨rfl, Or.inr ⟨by omega, by omega, Option.isSome_iff_exists.mp h4⟩⟩)
  · exact Or.inr (Or.inr ⟨rfl, by omega, by omega, by simpa using h4⟩)

lemma proccessLoop_induction {P : RecvQueue → Prop}
    (hstep : ∀ q p, P q → q.queue (q.beginFullRecievedAck % queueSize) = some p →
      q.beginFullRecievedAck ≠ seqLimit - 1 → P (q.takeNext p)) {fuel : ℕ} {q q' : RecvQueue}
    (hq : P q) (h : q.proccessLoop fuel = some q') : P q' := by
  induction fuel generalizing q with
  | zero =>
    cases h
    exact hq
  | succ fuel ih =>
    rw [proccessLoop] at h
    split_ifs at h with hb
    split at h
    · cases h
      exact hq
    · rename_i p hp
      exact ih (hstep q p hq hp hb) h

lemma next_seqNumber {q : RecvQueue} (hq : q.Inv) {p : Packet}
    (hp : q.queue (q.beginFullRecievedAck % queueSize) = some p) :
    p.seqNumber = q.beginFullRecievedAck := by
  obtain ⟨hm, hlo, hhi⟩ := hq.slot _ _ hp
  exact mod_window hm hlo hhi le_rfl (by simp [queueSize])

lemma takeNext_inv {q : RecvQueue} (hq : q.Inv) (p : Packet) : (q.takeNext p).Inv := by
  refine ⟨Nat.le_succ_of_le hq.begin_pos, fun i p' hp' => ?_⟩
  simp only [takeNext] at hp' ⊢
  by_cases hi : i = q.beginFullRecievedAck % queueSize
  · rw [hi, Function.update_self] at hp'
    cases hp'
  · rw [Function.update_of_ne hi] at hp'
    obtain ⟨hm, hlo, hhi⟩ := hq.slot i p' hp'
    have hne : p'.seqNumber ≠ q.beginFullRecievedAck := fun he => hi (by rw [← hm, he])
    exact ⟨hm, by omega, by omega⟩

lemma takeNext_received {q : RecvQueue} (hq : q.Inv) {p : Packet}
    (hp : q.queue (q.beginFullRecievedAck % queueSize) = some p) {n : ℕ} (hn : q.Received n) :
    (q.takeNext p).Received n := by
  rcases hn with hn | ⟨p', hp', rfl⟩
  · exact Or.inl (Nat.lt_succ_of_lt hn)
  · by_cases hi : p'.seqNumber % queueSize = q.beginFullRecievedAck % queueSize
    · rw [hi, hp] at hp'
      cases hp'
      exact Or.inl (by rw [next_seqNumber hq hp]; exact Nat.lt_succ_self _)
    · exact Or.inr ⟨p', by simp only [takeNext]; rw [Function.update_of_ne hi, hp'], rfl⟩

lemma addPacket_inv {q q' : RecvQueue} {p : Packet} {r : RecvQueueStatus × Option Packet} (hq : q.Inv)
    (h : q.addPacket p = some (r, q')) : q'.Inv := by
  rcases addPacket_cases h with rfl | ⟨rfl, _⟩ | ⟨rfl, hlo, hhi, _⟩
  · exact hq
  · exact ⟨hq.begin_pos, hq.slot⟩
  · refine ⟨hq.begin_pos, fun i p' hp' => ?_⟩
    simp only at hp' ⊢
    by_cases hi : i = p.seqNumber % queueSize
    · rw [hi, Function.update_self] at hp'
      cases hp'
      exact ⟨hi.symm, hlo, hhi⟩
    · rw [Function.update_of_ne hi] at hp'
      exact hq.slot i p' hp'

lemma addPacket_received {q q' : RecvQueue} {p : Packet} {r : RecvQueueStatus × Option Packet} {n : ℕ}
    (h : q.addPacket p = some (r, q')) (hn : q.Received n) : q'.Received n := by
  rcases addPacket_cases h with rfl | ⟨rfl, _⟩ | ⟨rfl, _, _, hnone⟩
  · exact hn
  · exact hn
  · rcases hn with hn | ⟨p', hp', hseq⟩
    · exact Or.inl hn
    · refine Or.inr ⟨p', ?_, hseq⟩
      simp only
      rw [Function.update_of_ne, hp']
      intro heq
      rw [heq, hnone] at hp'
      cases hp'

lemma addPacket_selectiveAcks {q q' : RecvQueue} {p : Packet} {r : RecvQueueStatus × Option Packet}
    (hq : q.Inv) (hacks : ∀ n ∈ q.selectiveAcks, q.Received n) (h : q.addPacket p = some (r, q')) :
    ∀ n ∈ q'.selectiveAcks, q'.Received n := by
  intro n hn
  have hold : n ∈ q.selectiveAcks → q'.Received n := fun hmem => addPacket_received h (hacks n hmem)
  rcases addPacket_cases h with rfl | ⟨rfl, hp⟩ | ⟨rfl, _⟩
  · exact hacks n hn
  · rcases List.mem_append.mp hn with hn | hn
    · exact hold hn
    · rw [List.mem_singleton.mp hn]
      rcases hp with hp | ⟨hlo, hhi, p', hp'⟩
      · exact Or.inl hp
      · obtain ⟨hm, hlo', hhi'⟩ := hq.slot _ _ hp'
        exact Or.inr ⟨p', hp', mod_window hm hlo' hhi' hlo hhi⟩
  · rcases List.mem_append.mp hn with hn | hn
    · exact hold hn
    · rw [List.mem_singleton.mp hn]
      exact Or.inr ⟨p, Function.update_self .., rfl⟩

end RecvQueue

end FastTransport.Protocol
