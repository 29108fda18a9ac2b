import FastTransport.Protocol.Connection

/-! `FastTransportContext`: the connections of one end, by address and connection id. The
connection objects are shared, so the table and the incoming list hold their places. -/

namespace FastTransport.Protocol

/-- Connection ids are unsigned 16-bit. -/
def connectionIDLimit : ℕ := 2 ^ 16

structure FastTransportContext where
  objects : List Connection
  connections : List (ConnectionKey × ℕ)
  incomingConnections : List ℕ
  nextID : ℕ

namespace FastTransportContext

def create (nextID : ℕ) : FastTransportContext := ⟨[], [], [], nextID⟩

def generateID (x : FastTransportContext) : FastTransportContext :=
  { x with nextID := (x.nextID + 1) % connectionIDLimit }

def find (x : FastTransportContext) (key : ConnectionKey) : Option ℕ :=
  (x.connections.find? fun e => e.1 = key).map Prod.snd

/-- An entry that is there already stays. -/
def insert (x : FastTransportContext) (key : ConnectionKey) (object : ℕ) : FastTransportContext :=
  match x.find key with
  | some _ => x
  | none => { x with connections := x.connections ++ [(key, object)] }

def addObject (x : FastTransportContext) (c : Connection) : FastTransportContext :=
  { x with objects := x.objects ++ [c] }

def connect (x : FastTransportContext) (dstAddr now : ℕ) (free : List Packet) : FastTransportContext :=
  let y := x.generateID
  let key := ⟨dstAddr, y.nextID⟩
  (y.addObject (Connection.create .sendingSynState key now free)).insert key y.objects.length

def accept (x : FastTransportContext) : Option FastTransportContext :=
  x.incomingConnections.getLast?.bind fun object =>
    (x.objects[object]?).map fun c =>
      let y := { x with incomingConnections := x.incomingConnections.dropLast
                        objects := x.objects.set object { c with connected := true } }
      y.insert c.key object

def listen (now : ℕ) (packet : Packet) (myID : ℕ) : Option (Option Connection) :=
  if packet.packetType = .syn then
    ((Connection.create .waitingSynState ⟨packet.dstAddr, myID⟩ now []).onRecvPackets now packet).map some
  else some none

def onReceive (x : FastTransportContext) (now : ℕ) (free : List Packet) (packet : Packet) :
    Option FastTransportContext :=
  match x.find ⟨packet.dstAddr, packet.dstConnectionID⟩ with
  | some object =>
    (x.objects[object]?).bind fun c =>
      (c.onRecvPackets now packet).map fun c' => { x with objects := x.objects.set object c' }
  | none =>
    let y := x.generateID
    (listen now packet y.nextID).map fun
      | none => y
      | some c =>
        let z := (y.addObject { c with freeInternalSendPackets := free }).insert c.key y.objects.length
        { z with incomingConnections := z.incomingConnections ++ [y.objects.length] }

def connectionsRun (x : FastTransportContext) (key : ConnectionKey) (now timeout size : ℕ) :
    Option (List Packet × FastTransportContext) :=
  (x.find key).bind fun object =>
    (x.objects[object]?).bind fun c =>
      (c.run now timeout).map fun c' =>
        let sent := c'.getPacketsToSend size now
        (sent.1.map OutgoingPacket.packet,
          { x with objects := x.objects.set object (sent.2.processSentPackets sent.1) })

def update (x : FastTransportContext) (object : ℕ) (f : Connection → Option Connection) :
    Option FastTransportContext :=
  (x.objects[object]?).bind fun c => (f c).map fun c' => { x with objects := x.objects.set object c' }

variable {x : FastTransportContext} {key : ConnectionKey} {object : ℕ}

def Table (x : FastTransportContext) : Prop :=
  ∀ key object, x.find key = some object → ∃ c, x.objects[object]? = some c ∧ c.key = key

def Holds (x : FastTransportContext) (key : ConnectionKey) (destinationID : ℕ) : Prop :=
  ∃ object c, x.find key = some object ∧ x.objects[object]? = some c ∧ c.key = key ∧
    c.destinationID = destinationID

structure Extends (x y : FastTransportContext) : Prop where
  find : ∀ key object, x.find key = some object → y.find key = some object
  objects : ∀ (object : ℕ) (c : Connection), x.objects[object]? = some c →
    ∃ c', y.objects[object]? = some c' ∧ c'.key = c.key ∧ c'.destinationID = c.destinationID

lemma Extends.holds {y : FastTransportContext} (h : Extends x y) {destinationID : ℕ}
    (hx : x.Holds key destinationID) : y.Holds key destinationID := by
  obtain ⟨object, c, hf, ho, hk, hd⟩ := hx
  obtain ⟨c', ho', hk', hd'⟩ := h.objects object c ho
  exact ⟨object, c', h.find _ _ hf, ho', hk'.trans hk, hd'.trans hd⟩

lemma Extends.refl (x : FastTransportContext) : Extends x x :=
  ⟨fun _ _ h => h, fun _ c h => ⟨c, h, rfl, rfl⟩⟩

lemma Extends.trans {y z : FastTransportContext} (h : Extends x y) (h' : Extends y z) : Extends x z := by
  refine ⟨fun k o hf => h'.find k o (h.find k o hf), fun o c ho => ?_⟩
  obtain ⟨c', ho', hk, hd⟩ := h.objects o c ho
  obtain ⟨c'', ho'', hk', hd'⟩ := h'.objects o c' ho'
  exact ⟨c'', ho'', hk'.trans hk, hd'.trans hd⟩

lemma find_insert {key' : ConnectionKey} {object' : ℕ} (h : (x.insert key object).find key' = some object') :
    x.find key' = some object' ∨ (key' = key ∧ object' = object) := by
  rw [insert] at h
  split at h
  · exact Or.inl h
  · rw [find, List.find?_append, Option.map_or] at h
    rcases Option.or_eq_some_iff.mp h with h | ⟨_, h⟩
    · exact Or.inl h
    · obtain ⟨e, he, rfl⟩ := Option.map_eq_some_iff.mp h
      have hmem := List.mem_of_find?_eq_some he
      rw [List.mem_singleton] at hmem
      have hk : e.1 = key' := by simpa using List.find?_some he
      rw [hmem] at hk ⊢
      exact Or.inr ⟨hk.symm, rfl⟩

lemma insert_objects : (x.insert key object).objects = x.objects := by
  rw [insert]
  split <;> rfl

lemma extends_insert : Extends x (x.insert key object) := by
  refine ⟨fun k o hf => ?_, fun o c ho => ⟨c, by rwa [insert_objects], rfl, rfl⟩⟩
  rw [insert]
  split
  · exact hf
  · rw [find, List.find?_append, Option.map_or]
    exact Option.or_eq_some_iff.mpr (Or.inl hf)

lemma extends_addObject (c : Connection) : Extends x (x.addObject c) :=
  ⟨fun _ _ h => h, fun _ c' ho =>
    ⟨c', List.getElem?_append_left (List.getElem?_eq_some_iff.mp ho).1 ▸ ho, rfl, rfl⟩⟩

lemma table_insert (hx : x.Table) {c : Connection} (ho : x.objects[object]? = some c) (hk : c.key = key) :
    (x.insert key object).Table := by
  intro k o hf
  rw [insert_objects]
  rcases find_insert hf with hf | ⟨rfl, rfl⟩
  · exact hx k o hf
  · exact ⟨c, ho, hk⟩

lemma table_addObject (hx : x.Table) (c : Connection) : (x.addObject c).Table := by
  intro k o hf
  obtain ⟨d, ho, hk⟩ := hx k o hf
  obtain ⟨d', ho', hk', _⟩ := (extends_addObject c).objects o d ho
  exact ⟨d', ho', hk'.trans hk⟩

lemma getElem?_addObject (c : Connection) : (x.addObject c).objects[x.objects.length]? = some c :=
  List.getElem?_concat_length

lemma table_set (hx : x.Table) {c c' : Connection} (ho : x.objects[object]? = some c) (hk : c'.key = c.key) :
    Table { x with objects := x.objects.set object c' } := by
  intro k o hf
  obtain ⟨d, hd, hkd⟩ := hx k o hf
  simp only [List.getElem?_set]
  split_ifs with h1 h2
  · subst h1
    rw [ho] at hd
    cases hd
    exact ⟨c', rfl, hk.trans hkd⟩
  · exact absurd (List.getElem?_eq_some_iff.mp ho).1 h2
  · exact ⟨d, hd, hkd⟩

lemma extends_set {c c' : Connection} (ho : x.objects[object]? = some c) (hk : c'.key = c.key)
    (hd : c'.destinationID = c.destinationID) : Extends x { x with objects := x.objects.set object c' } := by
  refine ⟨fun _ _ h => h, fun o d hod => ?_⟩
  simp only [List.getElem?_set]
  split_ifs with h1 h2
  · subst h1
    rw [ho] at hod
    cases hod
    exact ⟨c', rfl, hk, hd⟩
  · exact absurd (List.getElem?_eq_some_iff.mp ho).1 h2
  · exact ⟨d, hod, rfl, rfl⟩

lemma map_set_eq {α : Type*} (f : Connection → α) {c c' : Connection} (ho : x.objects[object]? = some c)
    (h : f c' = f c) : (x.objects.set object c').map f = x.objects.map f := by
  obtain ⟨hlt, rfl⟩ := List.getElem?_eq_some_iff.mp ho
  rw [List.map_set, h, ← List.getElem_map f (h := by simpa using hlt), List.set_getElem_self]

end FastTransportContext

end FastTransport.Protocol
