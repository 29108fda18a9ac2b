import FastTransport.Lib.Runs
import FastTransport.Protocol.FastTransportContext

/-! A client and a server context joined by a network that loses, repeats and reorders packets. -/

namespace FastTransport.Protocol

open Lib.Runs

structure Handshake where
  clientAddr : ℕ
  serverAddr : ℕ
  client : FastTransportContext
  server : FastTransportContext
  toServer : List Packet
  toClient : List Packet
  delivered : List Packet

namespace Handshake

def create (clientAddr serverAddr clientID serverID : ℕ) : Handshake :=
  ⟨clientAddr, serverAddr, .create clientID, .create serverID, [], [], []⟩

inductive Action
  | connect (dstAddr now : ℕ) (free : List Packet)
  | clientReceives (copy now : ℕ) (free : List Packet)
  | serverReceives (copy now : ℕ) (free : List Packet)
  | clientRuns (key : ConnectionKey) (now timeout size : ℕ)
  | serverRuns (key : ConnectionKey) (now timeout size : ℕ)
  | accept
  | clientSends (object : ℕ) (data : List Packet)
  | serverSends (object : ℕ) (data : List Packet)
  | clientGeneratesID
  | serverGeneratesID

/-- A datagram arrives with the address of its sender; the id counter is also used by the other
contexts of a process. -/
def step (s : Handshake) : Action → Option Handshake
  | .connect dstAddr now free => some { s with client := s.client.connect dstAddr now free }
  | .clientReceives i now free =>
    (s.toClient[i]?).bind fun p =>
      (s.client.onReceive now free { p with dstAddr := s.serverAddr }).map fun x => { s with client := x }
  | .serverReceives i now free =>
    (s.toServer[i]?).bind fun p =>
      (s.server.onReceive now free { p with dstAddr := s.clientAddr }).map fun x =>
        { s with server := x, delivered := s.delivered ++ [p] }
  | .clientRuns key now timeout size =>
    (s.client.connectionsRun key now timeout size).map fun r =>
      { s with client := r.2, toServer := s.toServer ++ r.1.filter fun p => p.dstAddr = s.serverAddr }
  | .serverRuns key now timeout size =>
    (s.server.connectionsRun key now timeout size).map fun r =>
      { s with server := r.2, toClient := s.toClient ++ r.1.filter fun p => p.dstAddr = s.clientAddr }
  | .accept => s.server.accept.map fun x => { s with server := x }
  | .clientSends object data =>
    (s.client.update object fun c => some (c.send data)).map fun x => { s with client := x }
  | .serverSends object data =>
    (s.server.update object fun c => some (c.send data)).map fun x => { s with server := x }
  | .clientGeneratesID => some { s with client := s.client.generateID }
  | .serverGeneratesID => some { s with server := s.server.generateID }

def synIDs (ps : List Packet) : List ℕ :=
  (ps.filter fun p => p.packetType = .syn).map Packet.srcConnectionID

structure Answer (c : Connection) (p : Packet) : Prop where
  type_ne : p.packetType ≠ .syn
  src : p.srcConnectionID = c.key.id
  dst : p.dstConnectionID = c.destinationID

structure Answering (clientAddr : ℕ) (c : Connection) : Prop where
  state : c.connectionState = .sendingSynAckState ∨ c.connectionState = .dataState
  addr : c.key.addr = clientAddr
  outgoing : ∀ p ∈ c.outgoing, Answer c p.packet

structure Dialing (s : Handshake) (c : Connection) : Prop where
  state : c.connectionState = .sendingSynState ∨ c.connectionState = .waitingSynAckState ∨
    c.connectionState = .dataState
  agrees : c.connectionState = .dataState →
    s.server.Holds ⟨s.clientAddr, c.destinationID⟩ c.key.id
  outgoing : ∀ p ∈ c.outgoing, p.packet.packetType = .syn →
    p.packet.srcConnectionID = c.key.id ∧ p.packet.dstAddr = c.key.addr

structure Inv (s : Handshake) : Prop where
  clientTable : s.client.Table
  serverTable : s.server.Table
  clientObjects : ∀ c ∈ s.client.objects, s.Dialing c
  serverObjects : ∀ c ∈ s.server.objects, Answering s.clientAddr c
  toServer : ∀ p ∈ s.toServer, p.packetType = .syn →
    ∃ c ∈ s.client.objects, c.key = ⟨s.serverAddr, p.srcConnectionID⟩
  toClient : ∀ p ∈ s.toClient, p.packetType ≠ .syn ∧
    s.server.Holds ⟨s.clientAddr, p.srcConnectionID⟩ p.dstConnectionID
  delivered : ∀ p ∈ s.delivered, p ∈ s.toServer
  answers : (s.server.objects.map Connection.destinationID).Sublist (synIDs s.delivered)

lemma inv_create (clientAddr serverAddr clientID serverID : ℕ) :
    (create clientAddr serverAddr clientID serverID).Inv :=
  ⟨fun _ _ h => (by cases h), fun _ _ h => (by cases h), by simp [create, FastTransportContext.create],
    by simp [create, FastTransportContext.create], by simp [create], by simp [create], by simp [create],
    by simp [create, FastTransportContext.create]⟩

lemma Answering.onRecvPackets {clientAddr now : ℕ} {c c' : Connection} {p : Packet}
    (hc : Answering clientAddr c) (h : c.onRecvPackets now p = some c') :
    Answering clientAddr c' ∧ c'.key = c.key ∧ c'.destinationID = c.destinationID := by
  obtain ⟨hk, ho, ⟨hstate, _⟩ | ⟨hstate, _⟩ | ⟨_, hstate', hd⟩⟩ := Connection.onRecvPackets_cases h
  · rcases hc.state with hs | hs <;> rw [hs] at hstate <;> cases hstate
  · rcases hc.state with hs | hs <;> rw [hs] at hstate <;> cases hstate
  · refine ⟨⟨Or.inr hstate', hk ▸ hc.addr, fun p hp => ?_⟩, hk, hd⟩
    obtain ⟨ht, hsrc, hdst⟩ := hc.outgoing p (ho ▸ hp)
    exact ⟨ht, hsrc.trans (congrArg _ hk.symm), hdst.trans hd.symm⟩

lemma Answering.run {clientAddr now timeout : ℕ} {c c' : Connection} (hc : Answering clientAddr c) (size : ℕ)
    (h : c.run now timeout = some c') :
    Answering clientAddr ((c'.getPacketsToSend size now).2.processSentPackets (c'.getPacketsToSend size now).1) ∧
      c'.key = c.key ∧ c'.destinationID = c.destinationID ∧
      ∀ p ∈ (c'.getPacketsToSend size now).1, Answer c p.packet := by
  obtain ⟨hk, hd, hadv, hp⟩ := Connection.run_cases h
  have hout : ∀ p ∈ c'.outgoing, Answer c p.packet := by
    intro p hmem
    rcases hp p hmem with hmem | hmakes
    · exact hc.outgoing p hmem
    · rcases hmakes.kind with ⟨hstate, _⟩ | ⟨_, ht, hdst⟩ | ⟨_, ht, hdst⟩
      · rcases hc.state with hs | hs <;> rw [hs] at hstate <;> cases hstate
      · exact ⟨by simp [ht], hmakes.src, hdst⟩
      · exact ⟨by rcases ht with ht | ht <;> simp [ht], hmakes.src, hdst⟩
  have hsent : ∀ p ∈ (c'.getPacketsToSend size now).1, Answer c p.packet := by
    intro p hmem
    obtain ⟨o, ho, heq⟩ := Connection.getPacketsToSend_fst_mem hmem
    exact heq ▸ hout o ho
  refine ⟨⟨?_, hk ▸ hc.addr, fun p hmem => ?_⟩, hk, hd, hsent⟩
  · rcases hc.state with hs | hs <;> rw [hs] at hadv <;>
      generalize hs' : c'.connectionState = state at hadv <;> cases hadv
    · exact Or.inl hs'
    · exact Or.inr hs'
    · exact Or.inr hs'
  · have hcopy : Answer c p.packet := by
      rcases Connection.processSentPackets_mem hmem with hmem | hmem
      · exact hout p (Connection.getPacketsToSend_snd_mem now hmem)
      · exact hsent p hmem
    exact ⟨hcopy.type_ne, hcopy.src.trans (congrArg _ hk.symm), hcopy.dst.trans hd.symm⟩

lemma Dialing.run {s : Handshake} {now timeout : ℕ} {c c' : Connection} (hc : s.Dialing c) (size : ℕ)
    (h : c.run now timeout = some c') :
    s.Dialing ((c'.getPacketsToSend size now).2.processSentPackets (c'.getPacketsToSend size now).1) ∧
      c'.key = c.key ∧
      ∀ p ∈ (c'.getPacketsToSend size now).1, p.packet.packetType = .syn →
        p.packet.srcConnectionID = c.key.id ∧ p.packet.dstAddr = c.key.addr := by
  obtain ⟨hk, hd, hadv, hp⟩ := Connection.run_cases h
  have hout : ∀ p ∈ c'.outgoing, p.packet.packetType = .syn →
      p.packet.srcConnectionID = c.key.id ∧ p.packet.dstAddr = c.key.addr := by
    intro p hmem ht
    rcases hp p hmem with hmem | hmakes
    · exact hc.outgoing p hmem ht
    · exact ⟨hmakes.src, hmakes.addr⟩
  have hsent : ∀ p ∈ (c'.getPacketsToSend size now).1, p.packet.packetType = .syn →
      p.packet.srcConnectionID = c.key.id ∧ p.packet.dstAddr = c.key.addr := by
    intro p hmem
    obtain ⟨o, ho, heq⟩ := Connection.getPacketsToSend_fst_mem hmem
    exact heq ▸ hout o ho
  refine ⟨⟨?_, fun hdata => ?_, fun p hmem ht => ?_⟩, hk, hsent⟩
  · rcases hc.state with hs | hs | hs <;> rw [hs] at hadv <;>
      generalize hs' : c'.connectionState = state at hadv <;> cases hadv
    · exact Or.inl hs'
    · exact Or.inr (Or.inl hs')
    · exact Or.inr (Or.inl hs')
    · exact Or.inl hs'
    · exact Or.inr (Or.inr hs')
  · have hs' : c'.connectionState = .dataState := hdata
    have hold : c.connectionState = .dataState := by
      rcases hc.state with hs | hs | hs <;> rw [hs, hs'] at hadv <;> first | exact hs | cases hadv
    have hholds := hc.agrees hold
    rw [← hk, ← hd] at hholds
    exact hholds
  · have hcopy : p.packet.srcConnectionID = c.key.id ∧ p.packet.dstAddr = c.key.addr := by
      rcases Connection.processSentPackets_mem hmem with hmem | hmem
      · exact hout p (Connection.getPacketsToSend_snd_mem now hmem) ht
      · exact hsent p hmem ht
    rw [← hk] at hcopy
    exact hcopy

lemma Dialing.server {s t : Handshake} {c : Connection} (hc : s.Dialing c)
    (haddr : t.clientAddr = s.clientAddr) (h : s.server.Extends t.server) : t.Dialing c :=
  ⟨hc.state, fun hd => haddr ▸ h.holds (hc.agrees hd), hc.outgoing⟩

lemma Inv.server {s : Handshake} (hs : s.Inv) {x : FastTransportContext} (sent more : List Packet)
    (hext : s.server.Extends x) (htable : x.Table) (hobj : ∀ c ∈ x.objects, Answering s.clientAddr c)
    (hsent : ∀ p ∈ sent, p.packetType ≠ .syn ∧
      x.Holds ⟨s.clientAddr, p.srcConnectionID⟩ p.dstConnectionID)
    (hmore : ∀ p ∈ more, p ∈ s.toServer)
    (hans : (x.objects.map Connection.destinationID).Sublist (synIDs (s.delivered ++ more))) :
    Inv { s with server := x, toClient := s.toClient ++ sent, delivered := s.delivered ++ more } := by
  refine ⟨hs.clientTable, htable, fun c hc => (hs.clientObjects c hc).server rfl hext, hobj, hs.toServer,
    fun p hp => ?_, fun p hp => ?_, hans⟩
  · rcases List.mem_append.mp hp with hp | hp
    · exact (hs.toClient p hp).imp_right hext.holds
    · exact hsent p hp
  · rcases List.mem_append.mp hp with hp | hp
    · exact hs.delivered p hp
    · exact hmore p hp

lemma Inv.client {s : Handshake} (hs : s.Inv) {x : FastTransportContext} (sent : List Packet)
    (htable : x.Table) (hobj : ∀ c ∈ x.objects, s.Dialing c)
    (hkeys : ∀ c ∈ s.client.objects, ∃ c' ∈ x.objects, c'.key = c.key)
    (hsent : ∀ p ∈ sent, p.packetType = .syn →
      ∃ c ∈ x.objects, c.key = ⟨s.serverAddr, p.srcConnectionID⟩) :
    Inv { s with client := x, toServer := s.toServer ++ sent } := by
  refine ⟨htable, hs.serverTable, fun c hc => ?_, hs.serverObjects, fun p hp ht => ?_, hs.toClient,
    fun p hp => List.mem_append_left _ (hs.delivered p hp), hs.answers⟩
  · obtain ⟨h1, h2, h3⟩ := hobj c hc
    exact ⟨h1, h2, h3⟩
  · rcases List.mem_append.mp hp with hp | hp
    · obtain ⟨c, hc, hk⟩ := hs.toServer p hp ht
      obtain ⟨c', hc', hk'⟩ := hkeys c hc
      exact ⟨c', hc', hk'.trans hk⟩
    · exact hsent p hp ht

lemma Inv.serverSet {s : Handshake} (hs : s.Inv) {object : ℕ} {c c' : Connection} (sent more : List Packet)
    (ho : s.server.objects[object]? = some c) (hc' : Answering s.clientAddr c') (hk : c'.key = c.key)
    (hd : c'.destinationID = c.destinationID)
    (hsent : ∀ p ∈ sent, p.packetType ≠ .syn ∧
      s.server.Holds ⟨s.clientAddr, p.srcConnectionID⟩ p.dstConnectionID)
    (hmore : ∀ p ∈ more, p ∈ s.toServer) :
    Inv { s with server := { s.server with objects := s.server.objects.set object c' }
                 toClient := s.toClient ++ sent
                 delivered := s.delivered ++ more } := by
  have hext := FastTransportContext.extends_set ho hk hd
  refine hs.server _ _ hext (FastTransportContext.table_set hs.serverTable ho hk) (fun d hmem => ?_)
    (fun p hp => (hsent p hp).imp_right hext.holds) hmore ?_
  · rcases List.mem_or_eq_of_mem_set hmem with hmem | rfl
    · exact hs.serverObjects d hmem
    · exact hc'
  · simp only [FastTransportContext.map_set_eq Connection.destinationID ho hd]
    refine hs.answers.trans ?_
    simp only [synIDs, List.filter_append, List.map_append]
    exact List.sublist_append_left _ _

lemma Inv.clientSet {s : Handshake} (hs : s.Inv) {object : ℕ} {c c' : Connection} (sent : List Packet)
    (ho : s.client.objects[object]? = some c) (hc' : s.Dialing c') (hk : c'.key = c.key)
    (hsent : ∀ p ∈ sent, p.packetType = .syn → c.key = ⟨s.serverAddr, p.srcConnectionID⟩) :
    Inv { s with client := { s.client with objects := s.client.objects.set object c' }
                 toServer := s.toServer ++ sent } := by
  have hlt := (List.getElem?_eq_some_iff.mp ho).1
  have hself : c' ∈ s.client.objects.set object c' := List.mem_set hlt c'
  refine hs.client _ (FastTransportContext.table_set hs.clientTable ho hk) (fun d hmem => ?_)
    (fun d hmem => ?_) fun p hp ht => ⟨c', hself, hk.trans (hsent p hp ht)⟩
  · rcases List.mem_or_eq_of_mem_set hmem with hmem | rfl
    · exact hs.clientObjects d hmem
    · exact hc'
  · obtain ⟨i, hi⟩ := List.getElem?_of_mem hmem
    by_cases hio : object = i
    · subst hio
      rw [ho] at hi
      cases hi
      exact ⟨c', hself, hk⟩
    · exact ⟨d, List.mem_of_getElem? (i := i) (by rw [List.getElem?_set_ne hio, hi]), rfl⟩

lemma Dialing.onRecvPackets {s : Handshake} {now : ℕ} {c c' : Connection} {p : Packet} (hc : s.Dialing c)
    (hp : s.server.Holds ⟨s.clientAddr, p.srcConnectionID⟩ c.key.id)
    (h : c.onRecvPackets now p = some c') : s.Dialing c' ∧ c'.key = c.key := by
  obtain ⟨hk, ho, hcase⟩ := Connection.onRecvPackets_cases h
  have hout : ∀ p ∈ c'.outgoing, p.packet.packetType = .syn →
      p.packet.srcConnectionID = c'.key.id ∧ p.packet.dstAddr = c'.key.addr := by
    rw [ho, hk]
    exact hc.outgoing
  rcases hcase with ⟨hstate, _⟩ | ⟨_, hstate', hd⟩ | ⟨hstate, hstate', hd⟩
  · rcases hc.state with hs | hs | hs <;> rw [hs] at hstate <;> cases hstate
  · refine ⟨⟨Or.inr (Or.inr hstate'), fun _ => ?_, hout⟩, hk⟩
    rw [hd, hk]
    exact hp
  · refine ⟨⟨Or.inr (Or.inr hstate'), fun _ => ?_, hout⟩, hk⟩
    rw [hd, hk]
    exact hc.agrees hstate

lemma Inv.clientGeneratesID {s : Handshake} (hs : s.Inv) : Inv { s with client := s.client.generateID } := by
  have h := hs.client (x := s.client.generateID) [] hs.clientTable hs.clientObjects
    (fun c hc => ⟨c, hc, rfl⟩) (by simp)
  rwa [List.append_nil] at h

lemma Inv.serverGeneratesID {s : Handshake} (hs : s.Inv) (more : List Packet)
    (hmore : ∀ p ∈ more, p ∈ s.toServer) :
    Inv { s with server := s.server.generateID, delivered := s.delivered ++ more } := by
  have h := hs.server (x := s.server.generateID) [] more ⟨fun _ _ h => h, fun _ c h => ⟨c, h, rfl, rfl⟩⟩
    hs.serverTable hs.serverObjects (by simp) hmore (hs.answers.trans ?_)
  · rwa [List.append_nil] at h
  · simp only [synIDs, List.filter_append, List.map_append]
    exact List.sublist_append_left _ _

lemma Inv.clientReceives {s t : Handshake} (hs : s.Inv) {i now : ℕ} {free : List Packet}
    (h : s.step (.clientReceives i now free) = some t) : t.Inv := by
  obtain ⟨p, hp, h⟩ := Option.bind_eq_some_iff.mp h
  obtain ⟨x, hx, rfl⟩ := Option.map_eq_some_iff.mp h
  obtain ⟨ht, hholds⟩ := hs.toClient p (List.mem_of_getElem? hp)
  rw [FastTransportContext.onReceive] at hx
  split at hx
  · rename_i object hf
    obtain ⟨c, ho, hx⟩ := Option.bind_eq_some_iff.mp hx
    obtain ⟨c', hc', rfl⟩ := Option.map_eq_some_iff.mp hx
    obtain ⟨d, hd, hkey⟩ := hs.clientTable _ _ hf
    rw [ho] at hd
    cases hd
    have hid : c.key.id = p.dstConnectionID := congrArg ConnectionKey.id hkey
    obtain ⟨hdial, hk⟩ := (hs.clientObjects c (List.mem_of_getElem? ho)).onRecvPackets (hid ▸ hholds) hc'
    simpa using hs.clientSet [] ho hdial hk (by simp)
  · obtain ⟨l, hl, rfl⟩ := Option.map_eq_some_iff.mp hx
    rw [FastTransportContext.listen, if_neg ht] at hl
    cases hl
    exact hs.clientGeneratesID

lemma Inv.listen {s : Handshake} (hs : s.Inv) {now : ℕ} {free : List Packet} {p : Packet} {c : Connection}
    (ht : p.packetType = .syn) (hmore : ∀ q ∈ [p], q ∈ s.toServer)
    (h : (Connection.create .waitingSynState ⟨s.clientAddr, s.server.generateID.nextID⟩ now []).onRecvPackets now
      { p with dstAddr := s.clientAddr } = some c) :
    let y := s.server.generateID
    let z := (y.addObject { c with freeInternalSendPackets := free }).insert c.key y.objects.length
    Inv { s with server := { z with incomingConnections := z.incomingConnections ++ [y.objects.length] }
                 delivered := s.delivered ++ [p] } := by
  intro y z
  obtain ⟨hk, ho, ⟨_, _, hstate, hd⟩ | ⟨hstate, _⟩ | ⟨hstate, _⟩⟩ := Connection.onRecvPackets_cases h
  · have hy : s.server.Extends y := ⟨fun _ _ h => h, fun _ c h => ⟨c, h, rfl, rfl⟩⟩
    have hz : s.server.Extends z :=
      (hy.trans (FastTransportContext.extends_addObject _)).trans FastTransportContext.extends_insert
    have hobj : z.objects = s.server.objects ++ [{ c with freeInternalSendPackets := free }] := by
      rw [FastTransportContext.insert_objects]
      rfl
    have hinv := hs.server (x := { z with incomingConnections := z.incomingConnections ++ [y.objects.length] })
      [] [p] ⟨hz.find, hz.objects⟩ (FastTransportContext.table_insert
        (FastTransportContext.table_addObject (x := y) hs.serverTable _)
        (FastTransportContext.getElem?_addObject _) rfl) ?_ (by simp) hmore ?_
    · rwa [List.append_nil] at hinv
    · intro d hmem
      rw [show FastTransportContext.objects { z with
        incomingConnections := z.incomingConnections ++ [y.objects.length] } = _ from hobj] at hmem
      rcases List.mem_append.mp hmem with hmem | hmem
      · exact hs.serverObjects d hmem
      · rw [List.mem_singleton] at hmem
        subst hmem
        refine ⟨Or.inl hstate, hk ▸ rfl, fun q hq => ?_⟩
        rw [show Connection.outgoing { c with freeInternalSendPackets := free } = c.outgoing from rfl, ho] at hq
        simp [Connection.outgoing, Connection.create, SendQueue.queued, SendQueue.create,
          InFlightQueue.sampled, InFlightQueue.create] at hq
    · simp only [hobj, List.map_append, List.map_cons, List.map_nil, synIDs, List.filter_append, hd]
      refine hs.answers.append ?_
      rw [List.filter_cons, if_pos (by simpa using ht), List.filter_nil, List.map_cons, List.map_nil]
  · cases hstate
  · cases hstate

lemma Inv.serverReceives {s t : Handshake} (hs : s.Inv) {i now : ℕ} {free : List Packet}
    (h : s.step (.serverReceives i now free) = some t) : t.Inv := by
  obtain ⟨p, hp, h⟩ := Option.bind_eq_some_iff.mp h
  obtain ⟨x, hx, rfl⟩ := Option.map_eq_some_iff.mp h
  have hmore : ∀ q ∈ [p], q ∈ s.toServer := by
    simpa using List.mem_of_getElem? hp
  rw [FastTransportContext.onReceive] at hx
  split at hx
  · rename_i object hf
    obtain ⟨c, ho, hx⟩ := Option.bind_eq_some_iff.mp hx
    obtain ⟨c', hc', rfl⟩ := Option.map_eq_some_iff.mp hx
    obtain ⟨hans, hk, hd⟩ := (hs.serverObjects c (List.mem_of_getElem? ho)).onRecvPackets hc'
    simpa using hs.serverSet [] [p] ho hans hk hd (by simp) hmore
  · obtain ⟨l, hl, rfl⟩ := Option.map_eq_some_iff.mp hx
    rw [FastTransportContext.listen] at hl
    split_ifs at hl with ht
    · obtain ⟨c, hc, rfl⟩ := Option.map_eq_some_iff.mp hl
      exact hs.listen ht hmore hc
    · cases hl
      exact hs.serverGeneratesID [p] hmore

lemma Inv.clientRuns {s t : Handshake} (hs : s.Inv) {key : ConnectionKey} {now timeout size : ℕ}
    (h : s.step (.clientRuns key now timeout size) = some t) : t.Inv := by
  obtain ⟨r, hr, rfl⟩ := Option.map_eq_some_iff.mp h
  obtain ⟨object, hf, hr⟩ := Option.bind_eq_some_iff.mp hr
  obtain ⟨c, ho, hr⟩ := Option.bind_eq_some_iff.mp hr
  obtain ⟨c', hc', rfl⟩ := Option.map_eq_some_iff.mp hr
  obtain ⟨hdial, hk, hsent⟩ := (hs.clientObjects c (List.mem_of_getElem? ho)).run size hc'
  refine hs.clientSet _ ho hdial hk fun p hp ht => ?_
  obtain ⟨hp, haddr⟩ := List.mem_filter.mp hp
  obtain ⟨o, hmem, rfl⟩ := List.mem_map.mp hp
  obtain ⟨hsrc, hdst⟩ := hsent o hmem ht
  rw [hsrc, ← of_decide_eq_true haddr, hdst]

lemma Inv.serverRuns {s t : Handshake} (hs : s.Inv) {key : ConnectionKey} {now timeout size : ℕ}
    (h : s.step (.serverRuns key now timeout size) = some t) : t.Inv := by
  obtain ⟨r, hr, rfl⟩ := Option.map_eq_some_iff.mp h
  obtain ⟨object, hf, hr⟩ := Option.bind_eq_some_iff.mp hr
  obtain ⟨c, ho, hr⟩ := Option.bind_eq_some_iff.mp hr
  obtain ⟨c', hc', rfl⟩ := Option.map_eq_some_iff.mp hr
  have hc := hs.serverObjects c (List.mem_of_getElem? ho)
  obtain ⟨hans, hk, hd, hsent⟩ := hc.run size hc'
  obtain ⟨d, hod, hkey⟩ := hs.serverTable _ _ hf
  rw [ho] at hod
  cases hod
  have hinv := hs.serverSet ((((c'.getPacketsToSend size now).1.map OutgoingPacket.packet)).filter
    fun p => p.dstAddr = s.clientAddr) [] ho hans hk hd (fun p hp => ?_) (by simp)
  · simpa using hinv
  · obtain ⟨o, hmem, rfl⟩ := List.mem_map.mp (List.mem_filter.mp hp).1
    obtain ⟨ht, hsrc, hdst⟩ := hsent o hmem
    have hkey' : (⟨s.clientAddr, o.packet.srcConnectionID⟩ : ConnectionKey) = key := by
      rw [hsrc, ← hc.addr, hkey]
    exact ⟨ht, object, c, by rw [hkey', hf], ho, by rw [hkey', hkey], hdst.symm⟩

lemma Inv.accept {s t : Handshake} (hs : s.Inv) (h : s.step .accept = some t) : t.Inv := by
  obtain ⟨x, hx, rfl⟩ := Option.map_eq_some_iff.mp h
  obtain ⟨object, _, hx⟩ := Option.bind_eq_some_iff.mp hx
  obtain ⟨c, ho, rfl⟩ := Option.map_eq_some_iff.mp hx
  let d : Connection := { c with connected := true }
  let y : FastTransportContext :=
    { s.server with incomingConnections := s.server.incomingConnections.dropLast
                    objects := s.server.objects.set object d }
  have hk : d.key = c.key := rfl
  have hd : d.destinationID = c.destinationID := rfl
  have hset := FastTransportContext.extends_set ho hk hd
  have htable := FastTransportContext.table_set hs.serverTable ho hk
  have hy : s.server.Extends y := ⟨hset.find, hset.objects⟩
  have hod : y.objects[object]? = some d := by
    simp [y, (List.getElem?_eq_some_iff.mp ho).1]
  have hinv := hs.server (x := y.insert c.key object) [] [] (hy.trans FastTransportContext.extends_insert)
    (FastTransportContext.table_insert (x := y) htable hod rfl) (fun e hmem => ?_) (by simp) (by simp) ?_
  · simpa using hinv
  · rw [FastTransportContext.insert_objects] at hmem
    rcases List.mem_or_eq_of_mem_set hmem with hmem | rfl
    · exact hs.serverObjects e hmem
    · obtain ⟨hstate, haddr, hout⟩ := hs.serverObjects c (List.mem_of_getElem? ho)
      exact ⟨hstate, haddr, fun p hp => ⟨(hout p hp).type_ne, (hout p hp).src, (hout p hp).dst⟩⟩
  · rw [FastTransportContext.insert_objects, List.append_nil]
    simp only [y, FastTransportContext.map_set_eq Connection.destinationID ho hd]
    exact hs.answers

lemma Inv.clientSends {s t : Handshake} (hs : s.Inv) {object : ℕ} {data : List Packet}
    (h : s.step (.clientSends object data) = some t) : t.Inv := by
  obtain ⟨x, hx, rfl⟩ := Option.map_eq_some_iff.mp h
  obtain ⟨c, ho, hx⟩ := Option.bind_eq_some_iff.mp hx
  obtain ⟨c', hc', rfl⟩ := Option.map_eq_some_iff.mp hx
  cases hc'
  obtain ⟨hstate, hagrees, hout⟩ := hs.clientObjects c (List.mem_of_getElem? ho)
  have hdial : s.Dialing (c.send data) := ⟨hstate, hagrees, hout⟩
  simpa using hs.clientSet [] ho hdial rfl (by simp)

lemma Inv.serverSends {s t : Handshake} (hs : s.Inv) {object : ℕ} {data : List Packet}
    (h : s.step (.serverSends object data) = some t) : t.Inv := by
  obtain ⟨x, hx, rfl⟩ := Option.map_eq_some_iff.mp h
  obtain ⟨c, ho, hx⟩ := Option.bind_eq_some_iff.mp hx
  obtain ⟨c', hc', rfl⟩ := Option.map_eq_some_iff.mp hx
  cases hc'
  obtain ⟨hstate, haddr, hout⟩ := hs.serverObjects c (List.mem_of_getElem? ho)
  have hans : Answering s.clientAddr (c.send data) :=
    ⟨hstate, haddr, fun p hp => ⟨(hout p hp).type_ne, (hout p hp).src, (hout p hp).dst⟩⟩
  simpa using hs.serverSet [] [] ho hans rfl rfl (by simp) (by simp)

lemma Inv.connect {s t : Handshake} (hs : s.Inv) {dstAddr now : ℕ} {free : List Packet}
    (h : s.step (.connect dstAddr now free) = some t) : t.Inv := by
  cases h
  have hobj : (s.client.connect dstAddr now free).objects = s.client.objects ++
      [Connection.create .sendingSynState ⟨dstAddr, s.client.generateID.nextID⟩ now free] := by
    rw [FastTransportContext.connect, FastTransportContext.insert_objects]
    rfl
  have hinv := hs.client (x := s.client.connect dstAddr now free) [] ?_ ?_ ?_ (by simp)
  · rwa [List.append_nil] at hinv
  · exact FastTransportContext.table_insert
      (FastTransportContext.table_addObject (x := s.client.generateID) hs.clientTable _)
      (FastTransportContext.getElem?_addObject _) rfl
  · intro c hc
    rw [hobj, List.mem_append, List.mem_singleton] at hc
    rcases hc with hc | rfl
    · exact hs.clientObjects c hc
    · refine ⟨Or.inl rfl, fun hstate => (by cases hstate), fun p hp => ?_⟩
      simp [Connection.outgoing, Connection.create, SendQueue.queued, SendQueue.create,
        InFlightQueue.sampled, InFlightQueue.create] at hp
  · intro c hc
    exact ⟨c, by rw [hobj]; exact List.mem_append_left _ hc, rfl⟩

lemma inv_step (s : Handshake) (a : Action) (t : Handshake) (hs : s.Inv) (h : s.step a = some t) : t.Inv := by
  cases a with
  | connect dstAddr now free => exact hs.connect h
  | clientReceives i now free => exact hs.clientReceives h
  | serverReceives i now free => exact hs.serverReceives h
  | clientRuns key now timeout size => exact hs.clientRuns h
  | serverRuns key now timeout size => exact hs.serverRuns h
  | accept => exact hs.accept h
  | clientSends object data => exact hs.clientSends h
  | serverSends object data => exact hs.serverSends h
  | clientGeneratesID =>
    cases h
    exact hs.clientGeneratesID
  | serverGeneratesID =>
    cases h
    simpa using hs.serverGeneratesID [] (by simp)

theorem handshake_agreement {clientAddr serverAddr clientID serverID : ℕ} {as : List Action} {s : Handshake}
    (h : run step (create clientAddr serverAddr clientID serverID) as = some s) :
    (∀ id, (s.server.objects.map Connection.destinationID).count id ≤ (synIDs s.delivered).count id) ∧
      (∀ c ∈ s.server.objects, ∃ c' ∈ s.client.objects, c'.key = ⟨s.serverAddr, c.destinationID⟩) ∧
      ∀ c ∈ s.client.objects, c.connectionState = .dataState →
        s.server.Holds ⟨s.clientAddr, c.destinationID⟩ c.key.id := by
  have hs := run_invariant inv_step (inv_create clientAddr serverAddr clientID serverID) h
  refine ⟨fun id => hs.answers.count_le id, fun c hc => ?_, fun c hc => (hs.clientObjects c hc).agrees⟩
  have hmem := hs.answers.subset (List.mem_map_of_mem hc)
  obtain ⟨p, hp, heq⟩ := List.mem_map.mp hmem
  obtain ⟨hp, ht⟩ := List.mem_filter.mp hp
  obtain ⟨c', hc', hk⟩ := hs.toServer p (hs.delivered p hp) (of_decide_eq_true ht)
  exact ⟨c', hc', hk.trans (by rw [heq])⟩

def connectOnce : List Action :=
  [.connect 20 0 [Packet.ofPayload []], .clientRuns ⟨20, 1⟩ 1 5 0, .serverReceives 0 2 [Packet.ofPayload []]]

theorem handshake_agreement_connected :
    ∃ s, run step (create 10 20 0 0)
        (connectOnce ++ [.serverRuns ⟨10, 1⟩ 3 5 0, .clientReceives 0 4 [], .accept]) = some s ∧
      (s.client.objects.map Connection.connectionState = [.dataState] ∧
        s.server.objects.map Connection.destinationID = [1]) ∧
      (∀ id, (s.server.objects.map Connection.destinationID).count id ≤ (synIDs s.delivered).count id) ∧
      (∀ c ∈ s.server.objects, ∃ c' ∈ s.client.objects, c'.key = ⟨s.serverAddr, c.destinationID⟩) ∧
      ∀ c ∈ s.client.objects, c.connectionState = .dataState →
        s.server.Holds ⟨s.clientAddr, c.destinationID⟩ c.key.id :=
  ⟨_, rfl, ⟨rfl, rfl⟩, @handshake_agreement 10 20 0 0
    (connectOnce ++ [.serverRuns ⟨10, 1⟩ 3 5 0, .clientReceives 0 4 [], .accept]) _ rfl⟩

theorem repeated_syn_two_connections :
    ¬ ∀ (clientAddr serverAddr clientID serverID : ℕ) (as : List Action) (s : Handshake),
      run step (create clientAddr serverAddr clientID serverID) as = some s →
        ∀ c ∈ s.client.objects, (s.server.objects.map Connection.destinationID).count c.key.id ≤ 1 := by
  intro hall
  have hc := hall 10 20 0 0 (connectOnce ++ [.serverReceives 0 3 []]) _ rfl _ List.mem_cons_self
  revert hc
  decide

end Handshake

end FastTransport.Protocol
