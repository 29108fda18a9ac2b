import FastTransport.Lib.Runs
import FastTransport.Protocol.FastTransportContext

/-! Two endpoints, each of which may connect and listen, joined by a network that loses, repeats and reorders
packets: the packets that reach a handler which throws. -/

namespace FastTransport.Protocol

open Lib.Runs

namespace FastTransportContext

def receiver (x : FastTransportContext) (now : ℕ) (packet : Packet) : Option Connection :=
  match x.find ⟨packet.dstAddr, packet.dstConnectionID⟩ with
  | some object => x.objects[object]?
  | none =>
    if packet.packetType = .syn then
      some (Connection.create .waitingSynState ⟨packet.dstAddr, x.generateID.nextID⟩ now [])
    else none

def erase (x : FastTransportContext) (key : ConnectionKey) : Option FastTransportContext :=
  (x.find key).bind fun object => (x.objects[object]?).bind fun c =>
    if c.closed then some { x with connections := x.connections.filter fun e => e.1 ≠ key } else none

lemma find_insert_of {x : FastTransportContext} {key key' : ConnectionKey} {object object' : ℕ}
    (h : (x.insert key object).find key' = some object') :
    x.find key' = some object' ∨ x.find key' = none ∧ key' = key := by
  rcases find_insert h with h | ⟨rfl, rfl⟩
  · exact Or.inl h
  · cases hf : x.find key' with
    | none => exact Or.inr ⟨rfl, rfl⟩
    | some o =>
      rw [extends_insert.find key' o hf] at h
      exact Or.inl h

lemma find_erase (x : FastTransportContext) (key key' : ConnectionKey) :
    FastTransportContext.find { x with connections := x.connections.filter fun e => e.1 ≠ key } key' =
      if key' = key then none else x.find key' := by
  rw [find, find, List.find?_filter]
  split_ifs with hk
  · subst hk
    rw [Option.map_eq_none_iff, List.find?_eq_none]
    intro e _
    simp
  · congr 2
    funext e
    by_cases he : e.1 = key'
    · simp [he, hk]
    · simp [he]

end FastTransportContext

/-- `inbox` has every packet ever sent to an endpoint, `erased` the keys it has erased. -/
structure Endpoints where
  addr : Bool → ℕ
  context : Bool → FastTransportContext
  inbox : Bool → List Packet
  erased : Bool → List ConnectionKey

namespace Endpoints

def create (addr nextID : Bool → ℕ) : Endpoints :=
  ⟨addr, fun i => .create (nextID i), fun _ => [], fun _ => []⟩

inductive Action
  | connect (i : Bool) (dstAddr now : ℕ) (free : List Packet)
  | receive (i : Bool) (copy now : ℕ) (free : List Packet)
  | run (i : Bool) (key : ConnectionKey) (now timeout : ℕ)
  | sendQueueStep (i : Bool) (key : ConnectionKey) (size now : ℕ)
  | processRecvPackets (i : Bool) (key : ConnectionKey)
  | accept (i : Bool)
  | send (i : Bool) (object : ℕ) (data : List Packet)
  | recv (i : Bool) (object : ℕ)
  | close (i : Bool) (object : ℕ)
  | erase (i : Bool) (key : ConnectionKey)
  | generateID (i : Bool)

def setContext (s : Endpoints) (i : Bool) (x : FastTransportContext) : Endpoints :=
  { s with context := Function.update s.context i x }

def markErased (s : Endpoints) (i : Bool) (key : ConnectionKey) : Endpoints :=
  { s with erased := Function.update s.erased i (key :: s.erased i) }

def deliver (s : Endpoints) (i : Bool) (packets : List Packet) : Endpoints :=
  { s with inbox := Function.update s.inbox i (s.inbox i ++ packets.filter fun p => p.dstAddr = s.addr i) }

def entry (s : Endpoints) (i : Bool) (key : ConnectionKey) : Option Connection :=
  ((s.context i).find key).bind fun object => (s.context i).objects[object]?

def arriving (s : Endpoints) (i : Bool) (copy : ℕ) : Option Packet :=
  ((s.inbox i)[copy]?).map fun p => { p with dstAddr := s.addr !i }

def step (s : Endpoints) : Action → Option Endpoints
  | .connect i dstAddr now free => some (s.setContext i ((s.context i).connect dstAddr now free))
  | .receive i copy now free =>
    (s.arriving i copy).bind fun p => ((s.context i).onReceive now free p).map (s.setContext i)
  | .run i key now timeout =>
    ((s.context i).find key).bind fun object =>
      ((s.context i).update object fun c => c.run now timeout).map (s.setContext i)
  | .sendQueueStep i key size now =>
    ((s.context i).find key).bind fun object => ((s.context i).objects[object]?).bind fun c =>
      let sent := c.getPacketsToSend size now
      ((s.context i).update object fun _ => some (sent.2.processSentPackets sent.1)).map fun x =>
        (s.setContext i x).deliver (!i) (sent.1.map OutgoingPacket.packet)
  | .processRecvPackets i key =>
    ((s.context i).find key).bind fun object =>
      ((s.context i).update object Connection.processRecvPackets).map (s.setContext i)
  | .accept i => (s.context i).accept.map (s.setContext i)
  | .send i object data =>
    ((s.context i).update object fun c => some (c.send data)).map (s.setContext i)
  | .recv i object => ((s.context i).update object fun c => some c.recv.2).map (s.setContext i)
  | .close i object =>
    ((s.context i).update object fun c => some { c with closed := true }).map (s.setContext i)
  | .erase i key =>
    ((s.context i).erase key).map ((s.markErased i key).setContext i)
  | .generateID i => some (s.setContext i (s.context i).generateID)

def Throws (s : Endpoints) : Action → Prop
  | .receive i copy now _ => ∃ p c, s.arriving i copy = some p ∧ (s.context i).receiver now p = some c ∧ ¬ c.Takes p
  | .run i key now timeout => ∃ c, s.entry i key = some c ∧ c.run now timeout = none
  | _ => False

def Sending (c : Connection) : Prop :=
  c.connectionState = .sendingSynState ∨ c.connectionState = .sendingSynAckState

def Orderly (s : Endpoints) : Action → Prop
  | .connect i dstAddr _ _ => (⟨dstAddr, (s.context i).generateID.nextID⟩ : ConnectionKey) ∉ s.erased i
  | .receive i copy _ _ => ∀ p, s.arriving i copy = some p →
      (∀ c, s.entry i ⟨p.dstAddr, p.dstConnectionID⟩ = some c → ¬ Sending c ∧ p.packetType ≠ .syn) ∧
        (p.packetType = .syn → (⟨p.dstAddr, (s.context i).generateID.nextID⟩ : ConnectionKey) ∉ s.erased i)
  | .run i key now _ => ∀ c, s.entry i key = some c → Sending c →
      now - c.lastPacketReceive ≤ c.connectionState.getTimeout
  | .accept i => ∀ object c, (s.context i).incomingConnections.getLast? = some object →
      (s.context i).objects[object]? = some c → c.key ∉ s.erased i
  | _ => True

def peerKey (s : Endpoints) (i : Bool) (id : ℕ) : ConnectionKey := ⟨s.addr !i, id⟩

def Known (s : Endpoints) (i : Bool) (id : ℕ) : Prop :=
  ((s.context i).find (s.peerKey i id)).isSome ∨ s.peerKey i id ∈ s.erased i

structure Every (s : Endpoints) (i : Bool) (id : ℕ) (P : Connection → Prop) : Prop where
  known : s.Known i id
  entry : ∀ c, s.entry i (s.peerKey i id) = some c → P c

def Engaged (s : Endpoints) (i : Bool) (id : ℕ) : Prop :=
  s.Every i id fun c => c.connectionState = .sendingSynAckState ∨ c.connectionState = .dataState

def Dials (s : Endpoints) (i : Bool) (c : Connection) : Prop :=
  c.connectionState = .sendingSynState ∨ c.connectionState = .waitingSynAckState ∨
    c.connectionState = .dataState ∧ s.Engaged (!i) c.destinationID

structure Progress (s : Endpoints) (i : Bool) (c c' : Connection) : Prop where
  data : c.connectionState = .dataState → c'.connectionState = .dataState ∧ c'.destinationID = c.destinationID
  answers : c.connectionState = .sendingSynAckState →
    c'.connectionState = .sendingSynAckState ∨ c'.connectionState = .dataState
  dials : c.connectionState = .sendingSynState ∨ c.connectionState = .waitingSynAckState → s.Dials i c'

lemma Progress.refl (s : Endpoints) (i : Bool) (c : Connection) : s.Progress i c c :=
  ⟨fun h => ⟨h, rfl⟩, fun h => Or.inl h, fun h => h.imp_right Or.inl⟩

lemma Progress.of_eq {s : Endpoints} {i : Bool} {c c' : Connection} (hstate : c'.connectionState = c.connectionState)
    (hdest : c'.destinationID = c.destinationID) : s.Progress i c c' := by
  refine ⟨fun h => ⟨hstate.trans h, hdest⟩, fun h => Or.inl (hstate.trans h), fun h => ?_⟩
  rw [Dials, hstate]
  exact h.imp_right Or.inl

lemma Progress.keeps_dials {s : Endpoints} {i : Bool} {c c' : Connection} (h : s.Progress i c c')
    (hc : s.Dials i c) : s.Dials i c' := by
  rcases hc with hc | hc | ⟨hc, hd⟩
  · exact h.dials (Or.inl hc)
  · exact h.dials (Or.inr hc)
  · obtain ⟨hs, hdest⟩ := h.data hc
    exact Or.inr (Or.inr ⟨hs, hdest ▸ hd⟩)

structure Evolves (s t : Endpoints) : Prop where
  addr : t.addr = s.addr
  known : ∀ i id, s.Known i id → t.Known i id
  entry : ∀ i id c', s.Known i id → t.entry i (s.peerKey i id) = some c' →
    ∃ c, s.entry i (s.peerKey i id) = some c ∧ s.Progress i c c'

namespace Evolves

variable {s t : Endpoints}

lemma peerKey (h : Evolves s t) (i : Bool) (id : ℕ) : t.peerKey i id = s.peerKey i id := by
  rw [Endpoints.peerKey, h.addr, Endpoints.peerKey]

lemma every (h : Evolves s t) {i : Bool} {id : ℕ} {P Q : Connection → Prop}
    (hPQ : ∀ c c', s.Progress i c c' → P c → Q c') (he : s.Every i id P) : t.Every i id Q := by
  refine ⟨h.known i id he.known, fun c' hc' => ?_⟩
  rw [h.peerKey] at hc'
  obtain ⟨c, hc, hp⟩ := h.entry i id c' he.known hc'
  exact hPQ c c' hp (he.entry c hc)

lemma engaged (h : Evolves s t) {i : Bool} {id : ℕ} (he : s.Engaged i id) : t.Engaged i id := by
  refine h.every (fun c c' hp hc => ?_) he
  rcases hc with hc | hc
  · exact hp.answers hc
  · exact Or.inr (hp.data hc).1

lemma dials (h : Evolves s t) {i : Bool} {c : Connection} (hc : s.Dials i c) : t.Dials i c :=
  hc.imp_right fun hc => hc.imp_right fun hc => ⟨hc.1, h.engaged hc.2⟩

lemma every_dials (h : Evolves s t) {i : Bool} {id : ℕ} (he : s.Every i id (s.Dials i)) :
    t.Every i id (t.Dials i) :=
  h.every (fun _ _ hp hc => h.dials (hp.keeps_dials hc)) he

lemma every_data (h : Evolves s t) {i : Bool} {id dst : ℕ}
    (he : s.Every i id fun c => c.connectionState = .dataState ∧ c.destinationID = dst) :
    t.Every i id fun c => c.connectionState = .dataState ∧ c.destinationID = dst :=
  h.every (fun _ _ hp hc => ⟨(hp.data hc.1).1, (hp.data hc.1).2.trans hc.2⟩) he

end Evolves

structure Wire (s : Endpoints) (i : Bool) (p : Packet) : Prop where
  kind : p.packetType ≠ .syn → p.packetType = .synAck ∨ p.packetType = .sack ∨ p.packetType = .data
  syn : p.packetType = .syn → s.Every (!i) p.srcConnectionID (s.Dials !i)
  maker : p.packetType ≠ .syn → s.Every (!i) p.srcConnectionID fun c =>
    c.connectionState = .dataState ∧ c.destinationID = p.dstConnectionID
  target : p.packetType ≠ .syn → s.Every i p.dstConnectionID (s.Dials i)
  sack : p.packetType = .sack → s.Engaged i p.dstConnectionID

structure Sane (s : Endpoints) (i : Bool) (c : Connection) : Prop where
  state : c.connectionState = .sendingSynState ∨ c.connectionState = .waitingSynAckState ∨
    c.connectionState = .sendingSynAckState ∨ c.connectionState = .dataState
  peer : c.connectionState = .sendingSynAckState ∨ c.connectionState = .dataState →
    c.key.addr = s.addr (!i) ∧ s.Every (!i) c.destinationID (s.Dials !i)
  acks : c.recvQueue.selectiveAcks ≠ [] → c.connectionState = .dataState ∧ s.Engaged (!i) c.destinationID
  route : ∀ p ∈ c.outgoing, p.packet.srcConnectionID = c.key.id ∧ p.packet.dstAddr = c.key.addr
  syn : ∀ p ∈ c.outgoing, p.packet.packetType = .syn → s.Dials i c
  kind : ∀ p ∈ c.outgoing, p.packet.packetType ≠ .syn →
    p.packet.packetType = .synAck ∨ p.packet.packetType = .sack ∨ p.packet.packetType = .data
  answer : ∀ p ∈ c.outgoing, p.packet.packetType ≠ .syn →
    c.connectionState = .dataState ∧ p.packet.dstConnectionID = c.destinationID
  sack : ∀ p ∈ c.outgoing, p.packet.packetType = .sack → s.Engaged (!i) c.destinationID

structure Inv (s : Endpoints) : Prop where
  table : ∀ i, (s.context i).Table
  objects : ∀ i, ∀ c ∈ (s.context i).objects, s.Sane i c
  inbox : ∀ i, ∀ p ∈ s.inbox i, s.Wire i p

lemma inv_create (addr nextID : Bool → ℕ) : (create addr nextID).Inv :=
  ⟨fun _ _ _ h => (by cases h), fun _ _ h => (by cases h), fun _ _ h => (by cases h)⟩

lemma Wire.evolves {s t : Endpoints} {i : Bool} {p : Packet} (hp : s.Wire i p) (h : Evolves s t) : t.Wire i p :=
  ⟨hp.kind, fun ht => h.every_dials (hp.syn ht), fun ht => h.every_data (hp.maker ht),
    fun ht => h.every_dials (hp.target ht), fun ht => h.engaged (hp.sack ht)⟩

lemma Sane.evolves {s t : Endpoints} {i : Bool} {c : Connection} (hc : s.Sane i c) (h : Evolves s t) :
    t.Sane i c :=
  ⟨hc.state, fun hs => ⟨h.addr ▸ (hc.peer hs).1, h.every_dials (hc.peer hs).2⟩,
    fun ha => (hc.acks ha).imp_right h.engaged, hc.route, fun p hp ht => h.dials (hc.syn p hp ht), hc.kind, hc.answer,
    fun p hp ht => h.engaged (hc.sack p hp ht)⟩

lemma context_setContext (s : Endpoints) (i j : Bool) (x : FastTransportContext) :
    (s.setContext i x).context j = if j = i then x else s.context j := Function.update_apply s.context i x j

lemma Inv.setContext {s : Endpoints} (hs : s.Inv) {i : Bool} {x : FastTransportContext} (htable : x.Table)
    (hkeep : ∀ key, ((s.context i).find key).isSome → (x.find key).isSome ∨ key ∈ s.erased i)
    (hfind : ∀ key object, x.find key = some object → (s.context i).find key = some object ∨
      (s.context i).find key = none ∧ key ∉ s.erased i)
    (hobjects : ∀ (object : ℕ) c c', (s.context i).objects[object]? = some c → x.objects[object]? = some c' →
      s.Progress i c c')
    (hsane : Evolves s (s.setContext i x) → ∀ c ∈ x.objects, (s.setContext i x).Sane i c) :
    Evolves s (s.setContext i x) ∧ (s.setContext i x).Inv := by
  have hev : Evolves s (s.setContext i x) := by
    refine ⟨rfl, fun j id hk => ?_, fun j id c' hk hc' => ?_⟩
    · rw [Known, context_setContext]
      split_ifs with hj
      · subst hj
        exact hk.elim (hkeep _) Or.inr
      · exact hk
    · rw [Endpoints.entry, context_setContext] at hc'
      split_ifs at hc' with hj
      · subst hj
        obtain ⟨object, hf, hc'⟩ := Option.bind_eq_some_iff.mp hc'
        rcases hfind _ _ hf with hf | ⟨hn, he⟩
        · obtain ⟨c, hc, -⟩ := hs.table j _ _ hf
          exact ⟨c, Option.bind_eq_some_iff.mpr ⟨object, hf, hc⟩, hobjects object c c' hc hc'⟩
        · rcases hk with hk | hk
          · rw [hn] at hk
            cases hk
          · exact absurd hk he
      · exact ⟨c', hc', Progress.refl s j c'⟩
  refine ⟨hev, fun j => ?_, fun j c hc => ?_, fun j p hp => (hs.inbox j p hp).evolves hev⟩
  · rw [context_setContext]
    split_ifs
    · exact htable
    · exact hs.table j
  · rw [context_setContext] at hc
    split_ifs at hc with hj
    · subst hj
      exact hsane hev c hc
    · exact (hs.objects j c hc).evolves hev

lemma Inv.update {s : Endpoints} (hs : s.Inv) {i : Bool} {object : ℕ} {c c' : Connection}
    (ho : (s.context i).objects[object]? = some c) (hk : c'.key = c.key) (hp : s.Progress i c c')
    (hsane : ∀ t, Evolves s t → (∀ id, c.key = s.peerKey i id → (s.context i).find c.key = some object →
      t.entry i (s.peerKey i id) = some c') → t.Sane i c') :
    let t := s.setContext i { s.context i with objects := (s.context i).objects.set object c' }
    Evolves s t ∧ t.Inv := by
  have hlt := (List.getElem?_eq_some_iff.mp ho).1
  refine hs.setContext (FastTransportContext.table_set (hs.table i) ho hk) (fun _ h => Or.inl h)
    (fun _ _ h => Or.inl h) (fun o d d' hd hd' => ?_) fun hev d hd => ?_
  · simp only [List.getElem?_set] at hd'
    split_ifs at hd' with h1
    · cases hd'
      subst h1
      cases ho.symm.trans hd
      exact hp
    · cases hd.symm.trans hd'
      exact Progress.refl s i d
  · rcases List.mem_or_eq_of_mem_set hd with hd | rfl
    · exact (hs.objects i d hd).evolves hev
    · refine hsane _ hev fun id hid hf => ?_
      rw [Endpoints.entry, context_setContext, if_pos rfl, ← hid]
      exact Option.bind_eq_some_iff.mpr ⟨object, hf, List.getElem?_set_self hlt⟩

lemma Inv.add {s : Endpoints} (hs : s.Inv) {i : Bool} {x : FastTransportContext} {c : Connection}
    (hobj : x.objects = (s.context i).objects ++ [c]) (htable : x.Table) (hext : (s.context i).Extends x)
    (hfind : ∀ key object, x.find key = some object → (s.context i).find key = some object ∨
      (s.context i).find key = none ∧ key = c.key)
    (hnew : c.key ∉ s.erased i) (hsane : s.Sane i c) : (s.setContext i x).Inv := by
  refine (hs.setContext htable (fun key hk => ?_) (fun key object hf => ?_) (fun o d d' hd hd' => ?_)
    fun hev d hd => ?_).2
  · obtain ⟨object, hf⟩ := Option.isSome_iff_exists.mp hk
    exact Or.inl (Option.isSome_iff_exists.mpr ⟨object, hext.find key object hf⟩)
  · refine (hfind key object hf).imp_right fun hn => ⟨hn.1, ?_⟩
    rw [hn.2]
    exact hnew
  · rw [hobj, List.getElem?_append_left (List.getElem?_eq_some_iff.mp hd).1, hd] at hd'
    cases hd'
    exact Progress.refl s i d
  · rw [hobj, List.mem_append, List.mem_singleton] at hd
    rcases hd with hd | rfl
    · exact (hs.objects i d hd).evolves hev
    · exact hsane.evolves hev

lemma Every.imp {s : Endpoints} {i : Bool} {id : ℕ} {P Q : Connection → Prop} (h : s.Every i id P)
    (hPQ : ∀ c, P c → Q c) : s.Every i id Q := ⟨h.known, fun c hc => hPQ c (h.entry c hc)⟩

lemma Sane.of_eq {s : Endpoints} {i : Bool} {c c' : Connection} (hc : s.Sane i c) (hkey : c'.key = c.key)
    (hstate : c'.connectionState = c.connectionState) (hdest : c'.destinationID = c.destinationID)
    (hacks : c'.recvQueue.selectiveAcks = c.recvQueue.selectiveAcks)
    (hout : ∀ p ∈ c'.outgoing, ∃ o ∈ c.outgoing, o.packet = p.packet) : s.Sane i c' := by
  have hprogress : s.Progress i c c' := Progress.of_eq hstate hdest
  refine ⟨?_, ?_, ?_, fun p hp => ?_, fun p hp ht => ?_, fun p hp ht => ?_, fun p hp ht => ?_, fun p hp ht => ?_⟩
  · rw [hstate]
    exact hc.state
  · rw [hstate, hkey, hdest]
    exact hc.peer
  · rw [hstate, hacks, hdest]
    exact hc.acks
  all_goals obtain ⟨o, ho, he⟩ := hout p hp
  · rw [← he, hkey]
    exact hc.route o ho
  · exact hprogress.keeps_dials (hc.syn o ho (he ▸ ht))
  · rw [← he] at ht ⊢
    exact hc.kind o ho ht
  · rw [← he, hstate, hdest]
    exact hc.answer o ho (he ▸ ht)
  · rw [hdest]
    exact hc.sack o ho (he ▸ ht)

lemma Progress.run {s : Endpoints} {i : Bool} {c c' : Connection} {now timeout : ℕ}
    (h : c.run now timeout = some c') : s.Progress i c c' := by
  obtain ⟨-, hdest, hadv, -⟩ := Connection.run_cases h
  refine ⟨fun hd => ⟨?_, hdest⟩, fun hd => ?_, fun hd => ?_⟩
  · rw [hd] at hadv
    generalize hs' : c'.connectionState = state at hadv
    cases hadv
    rfl
  · rw [hd] at hadv
    generalize hs' : c'.connectionState = state at hadv
    cases hadv
    · exact Or.inl rfl
    · exact Or.inr rfl
  · rw [Dials]
    generalize hs' : c'.connectionState = state at hadv
    rcases hd with hd | hd <;> rw [hd] at hadv <;> cases hadv
    · exact Or.inl rfl
    · exact Or.inr (Or.inl rfl)
    · exact Or.inr (Or.inl rfl)
    · exact Or.inl rfl

lemma Sane.run {s : Endpoints} {i : Bool} {c c' : Connection} {now timeout : ℕ} (hc : s.Sane i c)
    (h : c.run now timeout = some c') : c'.key = c.key ∧ s.Progress i c c' ∧ s.Sane i c' := by
  obtain ⟨hkey, hdest, hadv, -⟩ := Connection.run_cases h
  have hprogress : s.Progress i c c' := Progress.run h
  refine ⟨hkey, hprogress, ?_, fun hd => ?_, fun ha => ?_, fun p hp => ?_, fun p hp ht => ?_, fun p hp ht => ?_,
    fun p hp ht => ?_, fun p hp ht => ?_⟩
  · rcases hc.state with hd | hd | hd | hd
    · exact (hprogress.dials (Or.inl hd)).imp_right fun h => h.imp_right fun h => Or.inr h.1
    · exact (hprogress.dials (Or.inr hd)).imp_right fun h => h.imp_right fun h => Or.inr h.1
    · exact Or.inr (Or.inr (hprogress.answers hd))
    · exact Or.inr (Or.inr (Or.inr (hprogress.data hd).1))
  · rw [hkey, hdest]
    refine hc.peer ?_
    generalize hs' : c'.connectionState = state at hadv hd
    generalize hs : c.connectionState = old at hadv
    cases hadv
    · exact hd
    · rcases hd with hd | hd <;> cases hd
    · exact Or.inl rfl
    · rcases hd with hd | hd <;> cases hd
  · have hold : c.recvQueue.selectiveAcks ≠ [] := by
      rcases Connection.run_selectiveAcks h with he | he
      · rwa [he] at ha
      · exact absurd he ha
    rw [hdest]
    exact (hc.acks hold).imp_left fun hd => (hprogress.data hd).1
  all_goals rcases Connection.run_made h hp with hp | hm
  · rw [hkey]
    exact hc.route p hp
  · rw [hkey]
    exact ⟨hm.src, hm.addr⟩
  · exact hprogress.keeps_dials (hc.syn p hp ht)
  · rcases hm.kind with ⟨hd, -⟩ | ⟨-, hn, -⟩
    · exact hprogress.dials (Or.inl hd)
    · rcases hn with hn | hn | hn <;> rw [ht] at hn <;> cases hn
  · exact hc.kind p hp ht
  · rcases hm.kind with ⟨-, hn⟩ | ⟨-, hkind, -⟩
    · exact absurd hn ht
    · exact hkind
  · rw [hdest]
    exact (hc.answer p hp ht).imp_left fun hd => (hprogress.data hd).1
  · rcases hm.kind with ⟨-, hn⟩ | ⟨hd, -, hdst, -⟩
    · exact absurd hn ht
    · exact ⟨hd, hdst.trans hdest.symm⟩
  · rw [hdest]
    exact hc.sack p hp ht
  · rcases hm.kind with ⟨-, hn⟩ | ⟨-, -, -, ha⟩
    · rw [ht] at hn
      cases hn
    · rw [hdest]
      exact (hc.acks (ha ht)).2

lemma Sane.onRecvPackets {s : Endpoints} {i : Bool} {c c' : Connection} {p : Packet} {now : ℕ} (hc : s.Sane i c)
    (hp : s.Wire i p) (hkey : c.key = s.peerKey i p.dstConnectionID) (hentry : s.entry i c.key = some c)
    (hsyn : p.packetType ≠ .syn) (h : c.onRecvPackets now p = some c') :
    c'.key = c.key ∧ s.Progress i c c' ∧
      ∀ t, Evolves s t → t.entry i (s.peerKey i p.dstConnectionID) = some c' → t.Sane i c' := by
  obtain ⟨hk, hout, hcase⟩ := Connection.onRecvPackets_cases h
  refine ⟨hk, ?_⟩
  rcases hcase with ⟨hs, -⟩ | ⟨hs, hs', hd⟩ | ⟨hs, hs', hd⟩
  · rcases hc.state with he | he | he | he <;> rw [hs] at he <;> cases he
  · have hmaker := hp.maker hsyn
    have hengaged : s.Engaged (!i) c'.destinationID := by
      rw [hd]
      exact hmaker.imp fun m hm => Or.inr hm.1
    have hdials : s.Dials i c' := Or.inr (Or.inr ⟨hs', hengaged⟩)
    refine ⟨⟨fun he => ?_, fun he => ?_, fun _ => hdials⟩, fun t hev ht => ?_⟩
    · rw [hs] at he
      cases he
    · rw [hs] at he
      cases he
    have hold : ∀ o ∈ c'.outgoing, o.packet.packetType = .syn := fun o ho => by
      by_contra hn
      rw [hout] at ho
      obtain ⟨he, -⟩ := hc.answer o ho hn
      rw [hs] at he
      cases he
    refine ⟨Or.inr (Or.inr (Or.inr hs')), fun _ => ⟨?_, ?_⟩, fun _ => ⟨hs', hev.engaged hengaged⟩,
      fun o ho => ?_, fun o ho _ => hev.dials hdials, fun o ho hn => absurd (hold o ho) hn,
      fun o ho hn => absurd (hold o ho) hn, fun o ho ht => ?_⟩
    · rw [hk, hkey, hev.addr]
      rfl
    · rw [hd]
      refine (hev.every_data hmaker).imp fun m hm => Or.inr (Or.inr ⟨hm.1, ?_⟩)
      rw [Bool.not_not, hm.2]
      refine ⟨hev.known _ _ (hp.target hsyn).known, fun e he => ?_⟩
      rw [hev.peerKey, ht] at he
      cases he
      exact Or.inr hs'
    · rw [hk]
      rw [hout] at ho
      exact hc.route o ho
    · rw [hold o ho] at ht
      cases ht
  · have hprogress : s.Progress i c c' := Progress.of_eq (hs'.trans hs.symm) hd
    refine ⟨hprogress, fun t hev _ => ?_⟩
    have htarget : s.Dials i c := (hp.target hsyn).entry c (hkey ▸ hentry)
    have hengaged : s.Engaged (!i) c'.destinationID := by
      rcases htarget with he | he | he
      · rw [hs] at he
        cases he
      · rw [hs] at he
        cases he
      · rw [hd]
        exact he.2
    refine Sane.evolves ⟨Or.inr (Or.inr (Or.inr hs')), fun _ => ?_, fun _ => ⟨hs', hengaged⟩, fun o ho => ?_,
      fun o ho ht => ?_, fun o ho ht => ?_, fun o ho ht => ?_, fun o ho ht => hengaged⟩ hev
    · rw [hk, hd]
      exact hc.peer (Or.inr hs)
    all_goals rw [hout] at ho
    · rw [hk]
      exact hc.route o ho
    · exact hprogress.keeps_dials (hc.syn o ho ht)
    · exact hc.kind o ho ht
    · rw [hd]
      exact ⟨hs', (hc.answer o ho ht).2⟩

lemma Inv.arriving {s : Endpoints} (hs : s.Inv) {i : Bool} {copy : ℕ} {p : Packet}
    (h : s.arriving i copy = some p) : s.Wire i p ∧ p.dstAddr = s.addr !i := by
  obtain ⟨q, hq, rfl⟩ := Option.map_eq_some_iff.mp h
  have hw := hs.inbox i q (List.mem_of_getElem? hq)
  exact ⟨⟨hw.kind, hw.syn, hw.maker, hw.target, hw.sack⟩, rfl⟩

lemma Inv.frame {s : Endpoints} (hs : s.Inv) {i : Bool} {x : FastTransportContext}
    (hc : x.connections = (s.context i).connections) (ho : x.objects = (s.context i).objects) :
    (s.setContext i x).Inv := by
  have hfind : ∀ key, x.find key = (s.context i).find key := fun key => by
    rw [FastTransportContext.find, hc, FastTransportContext.find]
  refine (hs.setContext (fun key object hf => ?_) (fun key hk => Or.inl ((hfind key).symm ▸ hk))
    (fun key object hf => Or.inl (hfind key ▸ hf)) (fun o d d' hd hd' => ?_) fun hev d hd => ?_).2
  · rw [ho]
    exact hs.table i key object (hfind key ▸ hf)
  · rw [ho, hd] at hd'
    cases hd'
    exact Progress.refl s i d
  · exact (hs.objects i d (ho ▸ hd)).evolves hev

lemma Inv.connect {s : Endpoints} (hs : s.Inv) {i : Bool} {dstAddr now : ℕ} {free : List Packet}
    (hok : s.Orderly (.connect i dstAddr now free)) :
    (s.setContext i ((s.context i).connect dstAddr now free)).Inv := by
  have hgen : (s.context i).Extends (s.context i).generateID := ⟨fun _ _ h => h, fun _ c h => ⟨c, h, rfl, rfl⟩⟩
  have hobj : ((s.context i).connect dstAddr now free).objects = (s.context i).objects ++
      [Connection.create .sendingSynState ⟨dstAddr, (s.context i).generateID.nextID⟩ now free] := by
    rw [FastTransportContext.connect, FastTransportContext.insert_objects]
    rfl
  refine hs.add hobj ?_ ?_ (fun key object hf =>
    FastTransportContext.find_insert_of (x := (s.context i).generateID.addObject _) hf) hok ?_
  · exact FastTransportContext.table_insert
      (FastTransportContext.table_addObject (x := (s.context i).generateID) (hs.table i) _)
      (FastTransportContext.getElem?_addObject _) rfl
  · exact (hgen.trans (FastTransportContext.extends_addObject _)).trans FastTransportContext.extends_insert
  · have hnone : ∀ p : OutgoingPacket, p ∉ (Connection.create .sendingSynState
        ⟨dstAddr, (s.context i).generateID.nextID⟩ now free).outgoing := fun p hp => by
      simp [Connection.outgoing, Connection.create, SendQueue.queued, SendQueue.create,
        InFlightQueue.sampled, InFlightQueue.create] at hp
    exact ⟨Or.inl rfl, fun h => (by rcases h with h | h <;> cases h), fun h => absurd rfl h,
      fun p hp => absurd hp (hnone p), fun p hp => absurd hp (hnone p), fun p hp => absurd hp (hnone p),
      fun p hp => absurd hp (hnone p), fun p hp => absurd hp (hnone p)⟩

lemma Inv.listen {s : Endpoints} (hs : s.Inv) {i : Bool} {now : ℕ} {free : List Packet} {p : Packet}
    {c : Connection} (hp : s.Wire i p) (haddr : p.dstAddr = s.addr !i) (ht : p.packetType = .syn)
    (hnew : (⟨p.dstAddr, (s.context i).generateID.nextID⟩ : ConnectionKey) ∉ s.erased i)
    (h : (Connection.create .waitingSynState ⟨p.dstAddr, (s.context i).generateID.nextID⟩ now []).onRecvPackets now p =
      some c) :
    let y := (s.context i).generateID
    let z := (y.addObject { c with freeInternalSendPackets := free }).insert c.key y.objects.length
    (s.setContext i { z with incomingConnections := z.incomingConnections ++ [y.objects.length] }).Inv := by
  intro y z
  obtain ⟨hk, ho, ⟨_, _, hstate, hd⟩ | ⟨hstate, _⟩ | ⟨hstate, _⟩⟩ := Connection.onRecvPackets_cases h
  · have hy : (s.context i).Extends y := ⟨fun _ _ h => h, fun _ c h => ⟨c, h, rfl, rfl⟩⟩
    have hz : (s.context i).Extends z :=
      (hy.trans (FastTransportContext.extends_addObject _)).trans FastTransportContext.extends_insert
    have hobj : z.objects = (s.context i).objects ++ [{ c with freeInternalSendPackets := free }] := by
      rw [FastTransportContext.insert_objects]
      rfl
    have hnone : ∀ q : OutgoingPacket, q ∉ c.outgoing := fun q hq => by
      rw [ho] at hq
      simp [Connection.outgoing, Connection.create, SendQueue.queued, SendQueue.create,
        InFlightQueue.sampled, InFlightQueue.create] at hq
    refine hs.add (c := { c with freeInternalSendPackets := free }) hobj ?_ ⟨hz.find, hz.objects⟩
      (fun key object hf => FastTransportContext.find_insert_of (x := y.addObject _) hf) ?_ ?_
    · exact FastTransportContext.table_insert (FastTransportContext.table_addObject (x := y) (hs.table i) _)
        (FastTransportContext.getElem?_addObject _) rfl
    · have hkey : c.key = ⟨p.dstAddr, (s.context i).generateID.nextID⟩ := hk
      rw [← hkey] at hnew
      exact hnew
    · refine ⟨Or.inr (Or.inr (Or.inl hstate)), fun _ => ⟨?_, ?_⟩, fun ha => absurd ?_ ha,
        fun q hq => absurd hq (hnone q), fun q hq => absurd hq (hnone q), fun q hq => absurd hq (hnone q),
        fun q hq => absurd hq (hnone q), fun q hq => absurd hq (hnone q)⟩
      · exact (congrArg ConnectionKey.addr hk).trans haddr
      · exact hd ▸ hp.syn ht
      · rcases Connection.onRecvPackets_selectiveAcks h with he | he
        · exact he
        · rw [ht] at he
          cases he
  · cases hstate
  · cases hstate

lemma Inv.receive {s t : Endpoints} (hs : s.Inv) {i : Bool} {copy now : ℕ} {free : List Packet}
    (hok : s.Orderly (.receive i copy now free)) (h : s.step (.receive i copy now free) = some t) : t.Inv := by
  obtain ⟨p, hp, h⟩ := Option.bind_eq_some_iff.mp h
  obtain ⟨x, hx, rfl⟩ := Option.map_eq_some_iff.mp h
  obtain ⟨hw, haddr⟩ := hs.arriving hp
  obtain ⟨hentry, hnew⟩ := hok p hp
  rw [FastTransportContext.onReceive] at hx
  split at hx
  · rename_i object hf
    obtain ⟨c, ho, hx⟩ := Option.bind_eq_some_iff.mp hx
    obtain ⟨c', hc', rfl⟩ := Option.map_eq_some_iff.mp hx
    obtain ⟨d, hd, hkey⟩ := hs.table i _ _ hf
    cases ho.symm.trans hd
    have hce : s.entry i c.key = some c := Option.bind_eq_some_iff.mpr ⟨object, hkey ▸ hf, ho⟩
    have hck : c.key = s.peerKey i p.dstConnectionID := by rw [hkey, haddr, peerKey]
    obtain ⟨-, hsyn⟩ := hentry c (hkey ▸ hce)
    obtain ⟨hk, hprogress, hsane⟩ := (hs.objects i c (List.mem_of_getElem? ho)).onRecvPackets hw hck hce hsyn hc'
    exact (hs.update ho hk hprogress fun t hev ht => hsane t hev (ht _ hck (hkey ▸ hf))).2
  · obtain ⟨l, hl, rfl⟩ := Option.map_eq_some_iff.mp hx
    rw [FastTransportContext.listen] at hl
    split_ifs at hl with ht
    · obtain ⟨c, hc, rfl⟩ := Option.map_eq_some_iff.mp hl
      exact hs.listen hw haddr ht (hnew ht) hc
    · cases hl
      exact hs.frame rfl rfl

lemma Inv.local {s t : Endpoints} (hs : s.Inv) {i : Bool} {object : ℕ} {f : Connection → Option Connection}
    (hf : ∀ c c', f c = some c' → c'.key = c.key ∧ c'.connectionState = c.connectionState ∧
      c'.destinationID = c.destinationID ∧ c'.recvQueue.selectiveAcks = c.recvQueue.selectiveAcks ∧
      c'.outgoing = c.outgoing)
    (h : ((s.context i).update object f).map (s.setContext i) = some t) : t.Inv := by
  obtain ⟨x, hx, rfl⟩ := Option.map_eq_some_iff.mp h
  obtain ⟨c, ho, hx⟩ := Option.bind_eq_some_iff.mp hx
  obtain ⟨c', hc', rfl⟩ := Option.map_eq_some_iff.mp hx
  obtain ⟨hk, hstate, hdest, hacks, hout⟩ := hf c c' hc'
  have hsane := (hs.objects i c (List.mem_of_getElem? ho)).of_eq hk hstate hdest hacks
    fun p hp => ⟨p, hout ▸ hp, rfl⟩
  exact (hs.update ho hk (Progress.of_eq hstate hdest) fun t hev _ => hsane.evolves hev).2

lemma Inv.run {s t : Endpoints} (hs : s.Inv) {i : Bool} {key : ConnectionKey} {now timeout : ℕ}
    (h : s.step (.run i key now timeout) = some t) : t.Inv := by
  obtain ⟨object, -, h⟩ := Option.bind_eq_some_iff.mp h
  obtain ⟨x, hx, rfl⟩ := Option.map_eq_some_iff.mp h
  obtain ⟨c, ho, hx⟩ := Option.bind_eq_some_iff.mp hx
  obtain ⟨c', hc', rfl⟩ := Option.map_eq_some_iff.mp hx
  obtain ⟨hk, hprogress, hsane⟩ := (hs.objects i c (List.mem_of_getElem? ho)).run hc'
  exact (hs.update ho hk hprogress fun t hev _ => hsane.evolves hev).2

lemma Sane.wire {s : Endpoints} {i : Bool} {c : Connection} (hc : s.Sane i c) (hentry : s.entry i c.key = some c)
    {p : OutgoingPacket} (hp : p ∈ c.outgoing) (haddr : p.packet.dstAddr = s.addr !i) :
    s.Wire (!i) p.packet := by
  obtain ⟨hsrc, hdst⟩ := hc.route p hp
  have hkey : s.peerKey i p.packet.srcConnectionID = c.key := by
    rw [peerKey, hsrc, ← haddr, hdst]
  have hknown : s.Known i p.packet.srcConnectionID := by
    obtain ⟨object, hf, -⟩ := Option.bind_eq_some_iff.mp hentry
    exact Or.inl (Option.isSome_iff_exists.mpr ⟨object, hkey ▸ hf⟩)
  have hevery {P : Connection → Prop} (hP : P c) : s.Every i p.packet.srcConnectionID P := by
    refine ⟨hknown, fun d hd => ?_⟩
    rw [hkey, hentry] at hd
    cases hd
    exact hP
  refine ⟨hc.kind p hp, fun ht => ?_, fun ht => ?_, fun ht => ?_, fun ht => ?_⟩
  · rw [Bool.not_not]
    exact hevery (hc.syn p hp ht)
  · rw [Bool.not_not]
    obtain ⟨hs, hd⟩ := hc.answer p hp ht
    exact hevery ⟨hs, hd.symm⟩
  · obtain ⟨hs, hd⟩ := hc.answer p hp ht
    rw [hd]
    exact (hc.peer (Or.inr hs)).2
  · have hn : p.packet.packetType ≠ .syn := by simp [ht]
    rw [(hc.answer p hp hn).2]
    exact hc.sack p hp ht

lemma inbox_deliver (s : Endpoints) (i j : Bool) (packets : List Packet) : (s.deliver i packets).inbox j =
    if j = i then s.inbox i ++ packets.filter (fun p => p.dstAddr = s.addr i) else s.inbox j :=
  Function.update_apply s.inbox i _ j

lemma Inv.deliver {s : Endpoints} (hs : s.Inv) {i : Bool} {packets : List Packet}
    (hp : ∀ p ∈ packets, p.dstAddr = s.addr i → s.Wire i p) : (s.deliver i packets).Inv := by
  have hev : Evolves s (s.deliver i packets) := ⟨rfl, fun _ _ h => h, fun j _ c _ hc => ⟨c, hc, .refl s j c⟩⟩
  refine ⟨hs.table, fun j c hc => (hs.objects j c hc).evolves hev, fun j p hmem => Wire.evolves ?_ hev⟩
  rw [inbox_deliver] at hmem
  split_ifs at hmem with hj
  · subst hj
    rcases List.mem_append.mp hmem with hmem | hmem
    · exact hs.inbox j p hmem
    · obtain ⟨hmem, ha⟩ := List.mem_filter.mp hmem
      exact hp p hmem (of_decide_eq_true ha)
  · exact hs.inbox j p hmem

lemma Inv.sendQueueStep {s t : Endpoints} (hs : s.Inv) {i : Bool} {key : ConnectionKey} {size now : ℕ}
    (h : s.step (.sendQueueStep i key size now) = some t) : t.Inv := by
  obtain ⟨object, hf, h⟩ := Option.bind_eq_some_iff.mp h
  obtain ⟨c, ho, h⟩ := Option.bind_eq_some_iff.mp h
  obtain ⟨x, hx, rfl⟩ := Option.map_eq_some_iff.mp h
  obtain ⟨c₀, ho', hx⟩ := Option.bind_eq_some_iff.mp hx
  obtain ⟨c', hc', rfl⟩ := Option.map_eq_some_iff.mp hx
  cases ho.symm.trans ho'
  cases hc'
  obtain ⟨d, hd, hkey⟩ := hs.table i _ _ hf
  cases ho.symm.trans hd
  have hc := hs.objects i c (List.mem_of_getElem? ho)
  have hentry : s.entry i c.key = some c := Option.bind_eq_some_iff.mpr ⟨object, hkey ▸ hf, ho⟩
  have hsent : ∀ p ∈ (c.getPacketsToSend size now).1, ∃ o ∈ c.outgoing, o.packet = p.packet := fun p hp =>
    Connection.getPacketsToSend_fst_mem hp
  have hsane : s.Sane i ((c.getPacketsToSend size now).2.processSentPackets (c.getPacketsToSend size now).1) :=
    hc.of_eq rfl rfl rfl rfl fun p hp => by
      rcases Connection.processSentPackets_mem hp with hp | hp
      · exact ⟨p, Connection.getPacketsToSend_snd_mem now hp, rfl⟩
      · exact hsent p hp
  obtain ⟨hev, hinv⟩ := @Inv.update s hs i object c
    ((c.getPacketsToSend size now).2.processSentPackets (c.getPacketsToSend size now).1) ho rfl
    (Progress.of_eq rfl rfl) fun t hev _ => hsane.evolves hev
  refine hinv.deliver fun p hp ha => Wire.evolves ?_ hev
  obtain ⟨q, hq, rfl⟩ := List.mem_map.mp hp
  obtain ⟨o, hmem, he⟩ := hsent q hq
  rw [← he] at ha ⊢
  exact hc.wire hentry hmem ha

lemma Inv.accept {s t : Endpoints} (hs : s.Inv) {i : Bool} (hok : s.Orderly (.accept i))
    (h : s.step (.accept i) = some t) : t.Inv := by
  obtain ⟨x, hx, rfl⟩ := Option.map_eq_some_iff.mp h
  obtain ⟨object, hl, hx⟩ := Option.bind_eq_some_iff.mp hx
  obtain ⟨c, ho, rfl⟩ := Option.map_eq_some_iff.mp hx
  have hnew := hok object c hl ho
  have hlt := (List.getElem?_eq_some_iff.mp ho).1
  let d : Connection := { c with connected := true }
  let y : FastTransportContext :=
    { s.context i with incomingConnections := (s.context i).incomingConnections.dropLast
                       objects := (s.context i).objects.set object d }
  have hset : FastTransportContext.Table { s.context i with objects := (s.context i).objects.set object d } :=
    FastTransportContext.table_set (hs.table i) ho rfl
  have htable : y.Table := hset
  have hod : y.objects[object]? = some d := List.getElem?_set_self hlt
  refine (hs.setContext (x := y.insert c.key object) ?_ (fun key hk => ?_) (fun key o hf => ?_)
    (fun o e e' he he' => ?_) fun hev e he => ?_).2
  · exact FastTransportContext.table_insert htable hod rfl
  · obtain ⟨o, hf⟩ := Option.isSome_iff_exists.mp hk
    exact Or.inl (Option.isSome_iff_exists.mpr ⟨o, FastTransportContext.extends_insert.find key o hf⟩)
  · refine (FastTransportContext.find_insert_of hf).imp_right fun hn => ⟨hn.1, ?_⟩
    rw [hn.2]
    exact hnew
  · rw [FastTransportContext.insert_objects] at he'
    simp only [y, List.getElem?_set] at he'
    split_ifs at he' with h1
    · subst h1
      cases ho.symm.trans he
      cases he'
      exact Progress.of_eq rfl rfl
    · cases he.symm.trans he'
      exact Progress.refl s i e
  · rw [FastTransportContext.insert_objects] at he
    rcases List.mem_or_eq_of_mem_set he with he | rfl
    · exact (hs.objects i e he).evolves hev
    · have hc := (hs.objects i c (List.mem_of_getElem? ho)).evolves hev
      exact hc.of_eq rfl rfl rfl rfl fun p hp => ⟨p, hp, rfl⟩

lemma Inv.markErased {s : Endpoints} (hs : s.Inv) (i : Bool) (key : ConnectionKey) : (s.markErased i key).Inv := by
  have hev : Evolves s (s.markErased i key) := by
    refine ⟨rfl, fun j id hk => hk.imp_right fun hk => ?_, fun j _ c _ hc => ⟨c, hc, .refl s j c⟩⟩
    change s.peerKey j id ∈ Function.update s.erased i (key :: s.erased i) j
    rw [Function.update_apply]
    split_ifs with hj
    · subst hj
      exact List.mem_cons_of_mem _ hk
    · exact hk
  exact ⟨hs.table, fun j c hc => (hs.objects j c hc).evolves hev, fun j p hp => (hs.inbox j p hp).evolves hev⟩

lemma Inv.erase {s t : Endpoints} (hs : s.Inv) {i : Bool} {key : ConnectionKey}
    (h : s.step (.erase i key) = some t) : t.Inv := by
  obtain ⟨x, hx, rfl⟩ := Option.map_eq_some_iff.mp h
  obtain ⟨object, -, hx⟩ := Option.bind_eq_some_iff.mp hx
  obtain ⟨c, -, hx⟩ := Option.bind_eq_some_iff.mp hx
  obtain ⟨-, hx⟩ := Option.ite_none_right_eq_some.mp hx
  obtain rfl := Option.some.inj hx
  have hfind := FastTransportContext.find_erase (s.context i) key
  refine ((hs.markErased i key).setContext (x := { s.context i with
      connections := (s.context i).connections.filter fun e => e.1 ≠ key }) (fun k o hk => ?_) (fun k hk => ?_)
    (fun k o hk => ?_) (fun o d d' hd hd' => ?_) fun hev d hd => ((hs.markErased i key).objects i d hd).evolves hev).2
  · rw [hfind] at hk
    split_ifs at hk
    exact hs.table i k o hk
  · rw [hfind]
    split_ifs with he
    · subst he
      right
      change k ∈ Function.update s.erased i (k :: s.erased i) i
      rw [Function.update_self]
      exact List.mem_cons_self
    · exact Or.inl hk
  · rw [hfind] at hk
    split_ifs at hk
    exact Or.inl hk
  · cases hd.symm.trans hd'
    exact Progress.refl _ i d

lemma inv_step (s : Endpoints) (a : Action) (t : Endpoints) (hs : s.Inv) (hok : s.Orderly a)
    (h : s.step a = some t) : t.Inv := by
  cases a with
  | connect i dstAddr now free =>
    cases h
    exact hs.connect hok
  | receive i copy now free => exact hs.receive hok h
  | run i key now timeout => exact hs.run h
  | sendQueueStep i key size now => exact hs.sendQueueStep h
  | processRecvPackets i key =>
    obtain ⟨object, -, h⟩ := Option.bind_eq_some_iff.mp h
    refine hs.local (fun c c' hc => ?_) h
    obtain ⟨q, rfl, hq⟩ := Connection.processRecvPackets_spec hc
    exact ⟨rfl, rfl, rfl, hq, rfl⟩
  | accept i => exact hs.accept hok h
  | send i object data =>
    refine hs.local (fun c c' hc => ?_) h
    cases hc
    exact ⟨rfl, rfl, rfl, rfl, rfl⟩
  | recv i object =>
    refine hs.local (fun c c' hc => ?_) h
    cases hc
    exact ⟨rfl, rfl, rfl, rfl, rfl⟩
  | close i object =>
    refine hs.local (fun c c' hc => ?_) h
    cases hc
    exact ⟨rfl, rfl, rfl, rfl, rfl⟩
  | erase i key => exact hs.erase h
  | generateID i =>
    cases h
    exact hs.frame rfl rfl

lemma Sane.takes {s : Endpoints} {i : Bool} {c : Connection} {p : Packet} (hc : s.Sane i c) (hsend : ¬ Sending c)
    (hp : s.Wire i p) (hsyn : p.packetType ≠ .syn)
    (hentry : s.entry i (s.peerKey i p.dstConnectionID) = some c) : c.Takes p := by
  rw [Connection.Takes]
  rcases hc.state with hs | hs | hs | hs
  · exact absurd (Or.inl hs) hsend
  · rw [hs]
    rcases hp.kind hsyn with ht | ht | ht
    · exact Or.inl ht
    · rcases (hp.sack ht).entry c hentry with he | he <;> rw [hs] at he <;> cases he
    · exact Or.inr ht
  · exact absurd (Or.inr hs) hsend
  · rw [hs]
    exact hp.kind hsyn

lemma Sane.run_ne_none {s : Endpoints} {i : Bool} {c : Connection} {now timeout : ℕ} (hc : s.Sane i c)
    (hsend : Sending c → now - c.lastPacketReceive ≤ c.connectionState.getTimeout) : c.run now timeout ≠ none := by
  rw [Connection.run]
  split_ifs with hlate
  · have hnot : ¬ Sending c := fun h => by
      have := hsend h
      omega
    rw [Ne, Option.map_eq_none_iff, Connection.onTimeOut]
    rcases hc.state with hs | hs | hs | hs
    · exact absurd (Or.inl hs) hnot
    · rw [hs]
      exact Option.some_ne_none _
    · exact absurd (Or.inr hs) hnot
    · rw [hs]
      exact Option.some_ne_none _
  · rw [Ne, Option.map_eq_none_iff, Connection.sendPackets]
    rcases hc.state with hs | hs | hs | hs <;> rw [hs] <;> exact Option.some_ne_none _

lemma Inv.not_throws {s : Endpoints} (hs : s.Inv) {a : Action} (hok : s.Orderly a) : ¬ s.Throws a := by
  intro h
  cases a with
  | receive i copy now free =>
    obtain ⟨p, c, hp, hr, ht⟩ := h
    obtain ⟨hw, haddr⟩ := hs.arriving hp
    rw [FastTransportContext.receiver] at hr
    split at hr
    · rename_i object hf
      have hentry : s.entry i ⟨p.dstAddr, p.dstConnectionID⟩ = some c :=
        Option.bind_eq_some_iff.mpr ⟨object, hf, hr⟩
      obtain ⟨hsend, hsyn⟩ := (hok p hp).1 c hentry
      rw [haddr] at hentry
      exact ht ((hs.objects i c (List.mem_of_getElem? hr)).takes hsend hw hsyn hentry)
    · obtain ⟨hsyn, hc⟩ := Option.ite_none_right_eq_some.mp hr
      cases hc
      exact ht hsyn
  | run i key now timeout =>
    obtain ⟨c, hc, hnone⟩ := h
    obtain ⟨object, -, ho⟩ := Option.bind_eq_some_iff.mp hc
    exact (hs.objects i c (List.mem_of_getElem? ho)).run_ne_none (hok c hc) hnone
  | _ => exact h

theorem orderly_schedule_never_throws {addr nextID : Bool → ℕ} {as : List Action} {s : Endpoints} {a : Action}
    (h : Path step Orderly (create addr nextID) as s) (hok : s.Orderly a) : ¬ s.Throws a :=
  (h.invariant inv_step (inv_create addr nextID)).not_throws hok

def addresses (i : Bool) : ℕ := if i then 20 else 10

def handshake : List Action :=
  [.connect false 20 0 [Packet.ofPayload []], .run false ⟨20, 1⟩ 1 5, .sendQueueStep false ⟨20, 1⟩ 0 1,
    .receive true 0 2 [Packet.ofPayload []], .run true ⟨10, 1⟩ 3 5, .sendQueueStep true ⟨10, 1⟩ 0 3]

theorem orderly_schedule_never_throws_handshake :
    ∃ s, Path step Orderly (create addresses fun _ => 0) handshake s ∧
      s.Orderly (.receive false 0 4 []) ∧ ¬ s.Throws (.receive false 0 4 []) := by
  have hpath : ∃ s, Path step Orderly (create addresses fun _ => 0) handshake s ∧
      s.Orderly (.receive false 0 4 []) := by
    refine ⟨_, .cons ?_ rfl (.cons ?_ rfl (.cons trivial rfl (.cons ?_ rfl (.cons ?_ rfl
      (.cons trivial rfl (.nil _)))))), ?_⟩
    · exact List.not_mem_nil
    · rintro c hc -
      cases hc
      decide
    · intro p hp
      cases hp
      exact ⟨fun c hc => (by cases hc), fun _ => List.not_mem_nil⟩
    · rintro c hc -
      cases hc
      decide
    · intro p hp
      cases hp
      refine ⟨fun c hc => ?_, fun ht => by cases ht⟩
      cases hc
      refine ⟨?_, by decide⟩
      rintro (h | h) <;> cases h
  obtain ⟨s, hs, hok⟩ := hpath
  exact ⟨s, hs, hok, orderly_schedule_never_throws hs hok⟩

theorem late_answer_throws :
    ¬ ∀ (addr nextID : Bool → ℕ) (as : List Action) (s : Endpoints) (a : Action),
      run step (create addr nextID) as = some s → ¬ s.Throws a := by
  intro h
  refine h addresses (fun _ => 0) (handshake ++ [.run false ⟨20, 1⟩ 30001 5]) _ (.receive false 0 30002 []) rfl ?_
  exact ⟨_, _, rfl, rfl, id⟩

end Endpoints

end FastTransport.Protocol
