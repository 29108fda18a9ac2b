import FastTransport.Protocol.Station

/-! Two connections, one made by `Connect` and one by `Listen`, joined by a network that loses, repeats
and reorders packets. -/

namespace FastTransport.Protocol

open Lib.Runs

structure Duplex where
  station : Bool → Station

namespace Duplex

/-- The end that connects is `false`, the end that listens is `true`. -/
def create (key : Bool → ConnectionKey) (now threadCount : Bool → ℕ) (free : Bool → List Packet) : Duplex :=
  ⟨fun i => Station.create (if i then .waitingSynState else .sendingSynState) (key i) (now i) (threadCount i) (free i)⟩

def step (d : Duplex) (a : Bool × Station.Action) : Option Duplex :=
  ((d.station a.1).step a.2).map fun r =>
    ⟨fun j => if j = a.1 then r.1 else (d.station j).deliver r.2⟩

/-- The user sends new packets, whose headers are zero, or ones this connection has given it. -/
def Owns (d : Duplex) (a : Bool × Station.Action) : Prop :=
  ∀ p ∈ a.2.data, p.ackNumber = 0 ∨
    ∃ q ∈ (d.station a.1).freed ++ (d.station a.1).received, p.ackNumber = q.ackNumber

def Inv (d : Duplex) : Prop := ∀ i, (d.station i).Sound (d.station !i)

lemma Inv.owned {d : Duplex} (hd : d.Inv) {i : Bool} {q : Packet}
    (hq : q ∈ (d.station i).freed ++ (d.station i).received) : q.ackNumber = 0 := by
  have hstamp : ∀ j, q ∈ Link.stamp 0 (d.station j).numbered → q.ackNumber = 0 := by
    intro j hmem
    obtain ⟨p, hp, n, hn⟩ := Link.mem_stamp hmem
    rw [hn]
    exact (hd j).clean p (List.mem_append_left _ hp)
  rcases List.mem_append.mp hq with hq | hq
  · exact hstamp i ((hd i).link.kept.mem_iff.mp (List.mem_append_right _ hq))
  · have hlink := (hd !i).link.delivered
    rw [Bool.not_not] at hlink
    apply hstamp !i
    have htake := List.mem_append_left (d.station i).connection.recvQueue.data hq
    exact List.mem_of_mem_take (hlink ▸ htake)

lemma inv_create (key : Bool → ConnectionKey) (now threadCount : Bool → ℕ) (free : Bool → List Packet) :
    (create key now threadCount free).Inv :=
  fun _ => Station.sound_create _ _ _ _ _ _ _ _ _ _

lemma inv_step {d d' : Duplex} {a : Bool × Station.Action} (hd : d.Inv) (hok : d.Owns a)
    (hlt : (d.station a.1).sent.length < seqLimit) (h : d.step a = some d') : d'.Inv := by
  obtain ⟨i, a⟩ := a
  obtain ⟨⟨t, packets⟩, ht, rfl⟩ := Option.map_eq_some_iff.mp h
  have hback := hd !i
  rw [Bool.not_not] at hback
  have hclean : ∀ p ∈ a.data, p.ackNumber = 0 := by
    intro p hp
    rcases hok p hp with hzero | ⟨q, hq, heq⟩
    · exact hzero
    · exact heq.trans (hd.owned hq)
  obtain ⟨hs, hr⟩ := Station.sound_step (hd i) hback hclean hlt ht
  intro j
  by_cases hj : j = i
  · subst hj
    simpa using hs
  · have hj : j = !i := by revert hj; cases i <;> cases j <;> simp
    subst hj
    simpa using hr

lemma step_sent {d d' : Duplex} {a : Bool × Station.Action} (h : d.step a = some d') (i : Bool) :
    (d'.station i).sent = (d.station i).sent ++ if i = a.1 then a.2.data else [] := by
  obtain ⟨⟨t, packets⟩, ht, rfl⟩ := Option.map_eq_some_iff.mp h
  simp only
  split_ifs with hi
  · rw [hi]
    exact Station.step_sent ht
  · exact (List.append_nil _).symm

lemma inv_path {key : Bool → ConnectionKey} {now threadCount : Bool → ℕ} {free : Bool → List Packet}
    {as : List (Bool × Station.Action)} {d : Duplex} (h : Path step Owns (create key now threadCount free) as d)
    (hlt : ∀ i, (d.station i).sent.length < seqLimit) : d.Inv := by
  refine h.invariant (P := fun d => (∀ i, (d.station i).sent.length < seqLimit) → d.Inv) ?_
    (fun _ => inv_create key now threadCount free) hlt
  intro d a d' hd hok hstep hlt'
  have hle : ∀ i, (d.station i).sent.length < seqLimit := by
    intro i
    have hlt := hlt' i
    rw [step_sent hstep, List.length_append] at hlt
    omega
  exact inv_step (hd hle) hok (hle a.1) hstep

lemma Inv.prefix_sent {d : Duplex} (hd : d.Inv) (i : Bool) :
    ((d.station !i).received ++ (d.station !i).connection.recvQueue.data).map Packet.payload <+:
      (d.station i).sent.map Packet.payload := by
  have hdelivered := congrArg (List.map Packet.payload) (hd i).link.delivered
  rw [List.map_take, Link.payload_stamp] at hdelivered
  rw [← (hd i).payload]
  apply List.IsPrefix.trans _ ((List.prefix_append (d.station i).numbered _).map Packet.payload)
  exact hdelivered ▸ List.take_prefix _ _

/-- Either way, what arrives is what was sent, in order and once; a packet of the user is in one place
until it is given back, and it is given back when the other end has it. -/
theorem both_directions {key : Bool → ConnectionKey} {now threadCount : Bool → ℕ} {free : Bool → List Packet}
    {as : List (Bool × Station.Action)} {d : Duplex} (h : Path step Owns (create key now threadCount free) as d)
    (hlt : ∀ i, (d.station i).sent.length < seqLimit) (i : Bool) :
    ((d.station !i).received ++ (d.station !i).connection.recvQueue.data).map Packet.payload <+:
        (d.station i).sent.map Packet.payload ∧
      ((d.station i).numbered ++ (d.station i).connection.sendUserData).map Packet.payload =
        (d.station i).sent.map Packet.payload ∧
      (∀ p ∈ Link.stamp 0 (d.station i).numbered, (d.station i).places p + (d.station i).freed.count p = 1) ∧
      ∀ p ∈ (d.station i).freed, (d.station !i).connection.recvQueue.Received p.seqNumber := by
  have hd := inv_path h hlt
  have hs := hd i
  exact ⟨hd.prefix_sent i, hs.payload, fun p hp => hs.places_eq hp, hs.link.acks.freed⟩

def keys (i : Bool) : ConnectionKey := if i then ⟨10, 1⟩ else ⟨20, 1⟩

def pumps (i : Bool) (now : ℕ) : List (Bool × Station.Action) :=
  [(i, .run now 50), (i, .sendQueueStep 4), (i, .getOutgoingPacketsToSend 0 9), (i, .sendMsg 0 fun k => now + k),
    (i, .giveBack 0), (i, .sendQueueStep 0), (i, .processSentPackets)]

def handshake : List (Bool × Station.Action) :=
  pumps false 1 ++ (true, .onReceive 0 2) :: (pumps true 3 ++ [(false, .onReceive 0 4)])

def reversed : List (Bool × Station.Action) :=
  [(true, .onReceive 2 6), (true, .onReceive 1 7), (true, .onReceive 2 8), (true, .processRecvPackets),
    (true, .recvSized 1)]

def session : List (Bool × Station.Action) :=
  handshake ++ (false, .send [Packet.ofPayload [7], Packet.ofPayload [8]]) :: (pumps false 5 ++ (reversed ++
    (pumps true 9 ++ [(false, .onReceive 1 10), (false, .run 11 50)])))

theorem both_directions_session :
    ∃ d, Path step Owns (create keys (fun _ => 0) (fun _ => 1) fun _ => [Packet.ofPayload []]) session d ∧
      ((d.station true).received.length = 1 ∧ (d.station false).freed.length = 2) ∧
      ∀ i,
        ((d.station !i).received ++ (d.station !i).connection.recvQueue.data).map Packet.payload <+:
            (d.station i).sent.map Packet.payload ∧
          ((d.station i).numbered ++ (d.station i).connection.sendUserData).map Packet.payload =
            (d.station i).sent.map Packet.payload ∧
          (∀ p ∈ Link.stamp 0 (d.station i).numbered, (d.station i).places p + (d.station i).freed.count p = 1) ∧
          ∀ p ∈ (d.station i).freed, (d.station !i).connection.recvQueue.Received p.seqNumber := by
  have hpath : ∃ d, Path step Owns (create keys (fun _ => 0) (fun _ => 1) fun _ => [Packet.ofPayload []]) session d ∧
      ((d.station true).received.length = 1 ∧ (d.station false).freed.length = 2) ∧
      ∀ i, (d.station i).sent.length < seqLimit := by
    have hnew : ∀ a ∈ session, ∀ p ∈ a.2.data, p.ackNumber = 0 := by decide
    refine ⟨_, path_of_run rfl fun a ha _ p hp => Or.inl (hnew a ha p hp), ⟨rfl, rfl⟩, by decide⟩
  obtain ⟨d, hd, hlast, hlt⟩ := hpath
  exact ⟨d, hd, hlast, both_directions hd hlt⟩

end Duplex

end FastTransport.Protocol
