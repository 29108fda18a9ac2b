import FastTransport.Containers.MultiListRefinement

/-! `Socket::RecvMsg`: one `recvmmsg` call over groups of 64 packet buffers, and the walk that
keeps the buffers with data and erases the others from the list. -/

namespace FastTransport.Protocol

open Containers

def gsoSize : ℕ := 1400

def udpMaxSegments : ℕ := 64

/-- What the kernel writes back for one message; the port is the low half-word of the address. -/
structure RecvMessage where
  len : ℕ
  truncated : Bool
  addr : ℕ

namespace Socket

variable {B : Type*}

def gather (m : MultiList B) : ℕ → MultiList.Iterator → Option (List B × MultiList.Iterator)
  | 0, it => some ([], it)
  | n + 1, it => (m.deref it).bind fun p => (gather m n (m.next it)).map fun r => (p :: r.1, r.2)

def iovecs (m : MultiList B) : ℕ → MultiList.Iterator → Option (List (List B))
  | 0, _ => some []
  | n + 1, it => (gather m udpMaxSegments it).bind fun r => (iovecs m n r.2).map (r.1 :: ·)

structure Reading (B : Type*) where
  packets : MultiList B
  iterator : MultiList.Iterator
  freePackets : MultiList B
  addr : B → ℕ

def portLimit : ℕ := 2 ^ 16

def srcAddress (message : RecvMessage) (index : ℕ) : ℕ :=
  message.addr / portLimit * portLimit + (message.addr + (portLimit - index % portLimit)) % portLimit

def packetNumber (len : ℕ) : ℕ := (len + gsoSize - 1) / gsoSize

def keepOne [DecidableEq B] (address : ℕ) (r : Reading B) : Option (Reading B) :=
  (r.packets.deref r.iterator).map fun p =>
    { r with addr := Function.update r.addr p address, iterator := r.packets.next r.iterator }

def freeOne (r : Reading B) : Option (Reading B) :=
  (r.packets.deref r.iterator).map fun p =>
    let e := r.packets.erase r.iterator
    { r with packets := e.1, iterator := e.2, freePackets := r.freePackets.pushBack p }

def keep [DecidableEq B] (address : ℕ) : ℕ → Reading B → Option (Reading B)
  | 0, r => some r
  | n + 1, r => (keepOne address r).bind (keep address n)

def free : ℕ → Reading B → Option (Reading B)
  | 0, r => some r
  | n + 1, r => (freeOne r).bind (free n)

def takeMessage [DecidableEq B] (index : ℕ) (r : Reading B) (message : RecvMessage) : Option (Reading B) :=
  if message.truncated then none
  else (keep (srcAddress message index) (packetNumber message.len) r).bind
    (free (udpMaxSegments - packetNumber message.len))

def freeRest : ℕ → Reading B → Option (Reading B)
  | n, r =>
    if r.packets.iteratorEq r.iterator r.packets.endIterator then some r
    else match n with
      | 0 => none
      | n + 1 => (freeOne r).bind (freeRest n)

def messagesSize (packets : MultiList B) (recvMessages : ℕ) : ℕ := min (packets.size / udpMaxSegments) recvMessages

def freeAll (packets : MultiList B) (addr : B → ℕ) : Reading B :=
  let r := MultiList.empty.splice packets
  ⟨r.2, r.2.beginIterator, r.1, addr⟩

def recvMsg [DecidableEq B] (recvmmsg : List (List B) → Option (List RecvMessage)) (recvMessages index : ℕ)
    (addr : B → ℕ) (packets : MultiList B) : Option (Reading B) :=
  if messagesSize packets recvMessages = 0 then some (freeAll packets addr)
  else
    (iovecs packets (messagesSize packets recvMessages) packets.beginIterator).bind fun iov =>
      match recvmmsg iov with
      | none => some (freeAll packets addr)
      | some messages =>
        (messages.foldlM (takeMessage index) ⟨packets, packets.beginIterator, MultiList.empty, addr⟩).bind
          fun r => freeRest r.packets.size r

def filled (group : List B) (len : ℕ) : List B := (group.zipIdx.filter fun x => x.2 * gsoSize < len).map Prod.fst

def filledBuffers (iov : List (List B)) (messages : List RecvMessage) : List B :=
  (iov.zip messages).flatMap fun x => filled x.1 x.2.len

def answered (recvmmsg : List (List B) → Option (List RecvMessage)) (iov : List (List B)) : List RecvMessage :=
  if iov.isEmpty then [] else (recvmmsg iov).getD []

def groups : ℕ → List B → List (List B)
  | 0, _ => []
  | n + 1, l => l.take udpMaxSegments :: groups n (l.drop udpMaxSegments)

section Walk

lemma gather_spec {m : MultiList B} (hm : m.Inv) (n : ℕ) {it : MultiList.Iterator} (h : m.Valid it)
    (hn : m.index it + n ≤ m.contents.length) :
    ∃ it', gather m n it = some ((m.contents.drop (m.index it)).take n, it') ∧ m.Valid it' ∧
      m.index it' = m.index it + n := by
  induction n generalizing it with
  | zero => exact ⟨it, rfl, h, rfl⟩
  | succ n ih =>
    have hlt : m.index it < m.contents.length := by omega
    obtain ⟨hv, hi⟩ := MultiList.next_valid hm h ((MultiList.index_lt_iff h).mp hlt)
    obtain ⟨it', hg, hv', hi'⟩ := ih hv (by omega)
    refine ⟨it', ?_, hv', by omega⟩
    rw [gather, MultiList.deref_eq_getElem h, List.getElem?_eq_getElem hlt, Option.bind_some, hg, Option.map_some,
      hi, List.drop_eq_getElem_cons hlt, List.take_succ_cons]

lemma iovecs_spec {m : MultiList B} (hm : m.Inv) (n : ℕ) {it : MultiList.Iterator} (h : m.Valid it)
    (hn : m.index it + udpMaxSegments * n ≤ m.contents.length) :
    iovecs m n it = some (groups n (m.contents.drop (m.index it))) := by
  induction n generalizing it with
  | zero => rfl
  | succ n ih =>
    rw [Nat.mul_succ] at hn
    obtain ⟨it', hg, hv, hi⟩ := gather_spec hm udpMaxSegments h (by omega)
    rw [iovecs, hg, Option.bind_some, ih hv (by omega), Option.map_some, hi, groups, List.drop_drop]

end Walk

structure At (r : Reading B) (kept rest freed : List B) : Prop where
  packets : r.packets.Inv
  valid : r.packets.Valid r.iterator
  contents : r.packets.contents = kept ++ rest
  index : r.packets.index r.iterator = kept.length
  free : r.freePackets.Inv ∧ r.freePackets.contents = freed

variable {r : Reading B} {kept rest freed : List B}

lemma At.deref {p : B} (h : At r kept (p :: rest) freed) : r.packets.deref r.iterator = some p := by
  rw [MultiList.deref_eq_getElem h.valid, h.contents, h.index, List.getElem?_append_right le_rfl, Nat.sub_self]
  rfl

lemma At.not_end {p : B} (h : At r kept (p :: rest) freed) : r.iterator.it1 ≠ r.packets.lists.length := by
  apply (MultiList.index_lt_iff h.valid).mp
  rw [h.contents, h.index, List.length_append, List.length_cons]
  omega

lemma At.freeOne {p : B} (h : At r kept (p :: rest) freed) :
    ∃ r', freeOne r = some r' ∧ At r' kept rest (freed ++ [p]) := by
  obtain ⟨before, left, a, right, after, hp⟩ := (MultiList.valid_cases h.valid).resolve_right h.not_end
  obtain ⟨hinv, hcontents, hvalid, hindex⟩ := MultiList.erase_spec h.packets hp
  obtain ⟨hfree, hfreed⟩ := MultiList.pushBack_spec h.free.1 p
  refine ⟨_, by rw [Socket.freeOne, h.deref, Option.map_some], hinv, hvalid, ?_, ?_, hfree, ?_⟩
  · exact hcontents.trans (by rw [h.contents, h.index, Lib.Lists.eraseIdx_length])
  · exact hindex.trans h.index
  · exact hfreed.trans (by rw [h.free.2])

lemma At.freeMany {l : List B} (h : At r kept (l ++ rest) freed) :
    ∃ r', Socket.free l.length r = some r' ∧ At r' kept rest (freed ++ l) := by
  induction l generalizing r freed with
  | nil => exact ⟨r, rfl, by simpa only [List.append_nil, List.nil_append] using h⟩
  | cons p l ih =>
    obtain ⟨u, hu, hat⟩ := h.freeOne
    obtain ⟨r', hr, hat'⟩ := ih hat
    refine ⟨r', ?_, by simpa only [List.append_assoc, List.singleton_append] using hat'⟩
    rw [List.length_cons, Socket.free, hu, Option.bind_some, hr]

lemma At.freeRest (h : At r kept rest freed) (n : ℕ) (hn : rest.length ≤ n) :
    ∃ r', freeRest n r = some r' ∧ At r' kept [] (freed ++ rest) := by
  induction rest generalizing r freed n with
  | nil =>
    have hend : r.packets.iteratorEq r.iterator r.packets.endIterator = true := by
      rw [MultiList.iteratorEq_end]
      by_contra hne
      have hlt := (MultiList.index_lt_iff h.valid).mpr hne
      rw [h.contents, h.index, List.append_nil] at hlt
      exact lt_irrefl _ hlt
    refine ⟨r, ?_, by simpa only [List.append_nil] using h⟩
    cases n <;> simp only [Socket.freeRest, if_pos hend]
  | cons p rest ih =>
    have hend : ¬ r.packets.iteratorEq r.iterator r.packets.endIterator = true := by
      rw [MultiList.iteratorEq_end]
      exact h.not_end
    obtain ⟨n, rfl⟩ := Nat.exists_eq_add_of_lt (Nat.lt_of_lt_of_le (Nat.succ_pos _) hn)
    obtain ⟨u, hu, hat⟩ := h.freeOne
    rw [Nat.zero_add] at hn ⊢
    obtain ⟨r', hr, hat'⟩ := ih hat n (Nat.le_of_succ_le_succ hn)
    refine ⟨r', ?_, by simpa only [List.append_assoc, List.singleton_append] using hat'⟩
    rw [Socket.freeRest, if_neg hend, hu, Option.bind_some, hr]

lemma filled_eq_take (group : List B) (len : ℕ) : filled group len = group.take (packetNumber len) := by
  have hlt : ∀ j, decide (j * gsoSize < len) = decide (j < packetNumber len) := fun j => by
    rw [decide_eq_decide, packetNumber, Nat.lt_div_iff_mul_lt (by decide)]
    simp only [gsoSize]
    omega
  have hcut : ∀ (l : List B) (k n : ℕ),
      ((l.zipIdx k).filter fun x => x.2 < n).map Prod.fst = l.take (n - k) := by
    intro l
    induction l with
    | nil => simp
    | cons b l ih =>
      intro k n
      rw [List.zipIdx_cons, List.filter_cons]
      by_cases hk : k < n
      · rw [if_pos (decide_eq_true hk), List.map_cons, ih, show n - k = n - (k + 1) + 1 by omega, List.take_succ_cons]
      · rw [if_neg (by simpa using hk), ih, show n - k = 0 by omega, show n - (k + 1) = 0 by omega,
          List.take_zero, List.take_zero]
  rw [filled, List.filter_congr fun x _ => hlt x.2, hcut, Nat.sub_zero]

lemma groups_isEmpty (n : ℕ) (l : List B) : (groups n l).isEmpty = true ↔ n = 0 := by
  cases n <;> simp [groups]

lemma groups_length (n : ℕ) (l : List B) : (groups n l).length = n := by
  induction n generalizing l with
  | zero => rfl
  | succ n ih => rw [groups, List.length_cons, ih]

lemma freeAll_contents {packets : MultiList B} (hp : packets.Inv) (addr : B → ℕ) :
    (freeAll packets addr).packets.Inv ∧ (freeAll packets addr).packets.contents = [] ∧
      (freeAll packets addr).freePackets.contents = packets.contents := by
  obtain ⟨-, hempty, hcontents⟩ := MultiList.splice_spec MultiList.inv_empty hp
  rw [freeAll]
  dsimp only
  rw [hempty]
  exact ⟨MultiList.inv_empty, MultiList.empty_related.2, hcontents.trans (by rw [MultiList.empty_related.2]; rfl)⟩

section Keeping

variable [DecidableEq B]

lemma At.keepOne {p : B} (h : At r kept (p :: rest) freed) (address : ℕ) :
    ∃ r', keepOne address r = some r' ∧ At r' (kept ++ [p]) rest freed := by
  obtain ⟨hvalid, hindex⟩ := MultiList.next_valid h.packets h.valid h.not_end
  refine ⟨{ r with addr := Function.update r.addr p address, iterator := r.packets.next r.iterator },
    by rw [Socket.keepOne, h.deref, Option.map_some], h.packets, hvalid, ?_, ?_, h.free⟩
  · rw [List.append_assoc]
    exact h.contents
  · rw [List.length_append]
    exact hindex.trans (congrArg (· + 1) h.index)

lemma At.keepMany {l : List B} (h : At r kept (l ++ rest) freed) (address : ℕ) :
    ∃ r', Socket.keep address l.length r = some r' ∧ At r' (kept ++ l) rest freed := by
  induction l generalizing r kept with
  | nil => exact ⟨r, rfl, by simpa only [List.append_nil, List.nil_append] using h⟩
  | cons p l ih =>
    obtain ⟨u, hu, hat⟩ := h.keepOne address
    obtain ⟨r', hr, hat'⟩ := ih hat
    refine ⟨r', ?_, by simpa only [List.append_assoc, List.singleton_append] using hat'⟩
    rw [List.length_cons, Socket.keep, hu, Option.bind_some, hr]

structure Fits (message : RecvMessage) : Prop where
  truncated : message.truncated = false
  len : message.len ≤ udpMaxSegments * gsoSize

lemma At.takeMessage {group : List B} (h : At r kept (group ++ rest) freed) (index : ℕ) {message : RecvMessage}
    (hm : Fits message) (hg : group.length = udpMaxSegments) :
    ∃ r', Socket.takeMessage index r message = some r' ∧
      At r' (kept ++ filled group message.len) rest (freed ++ group.drop (packetNumber message.len)) := by
  have hn : packetNumber message.len ≤ udpMaxSegments := by
    have hlen := hm.len
    simp only [packetNumber, udpMaxSegments, gsoSize] at hlen ⊢
    omega
  have htake : (group.take (packetNumber message.len)).length = packetNumber message.len := by
    rw [List.length_take, hg, Nat.min_eq_left hn]
  have hdrop : (group.drop (packetNumber message.len)).length = udpMaxSegments - packetNumber message.len := by
    rw [List.length_drop, hg]
  rw [← List.take_append_drop (packetNumber message.len) group, List.append_assoc] at h
  obtain ⟨u, hu, hat⟩ := h.keepMany (srcAddress message index)
  obtain ⟨r', hr, hat'⟩ := hat.freeMany
  rw [htake] at hu
  rw [hdrop] at hr
  refine ⟨r', ?_, ?_⟩
  · rw [Socket.takeMessage, if_neg (by simp [hm.truncated]), hu, Option.bind_some, hr]
  · rw [filled_eq_take]
    exact hat'

lemma At.takeMessages {messages : List RecvMessage} (h : At r kept rest freed) (index : ℕ)
    (hm : ∀ message ∈ messages, Fits message) {n : ℕ} (hn : messages.length ≤ n)
    (hrest : udpMaxSegments * n ≤ rest.length) :
    ∃ r' left freed', messages.foldlM (Socket.takeMessage index) r = some r' ∧
      At r' (kept ++ filledBuffers (groups n rest) messages) left freed' ∧
      (filledBuffers (groups n rest) messages ++ (left ++ freed')).Perm (rest ++ freed) := by
  induction messages generalizing r kept rest freed n with
  | nil =>
    have hnone : filledBuffers (groups n rest) [] = [] := by simp [filledBuffers]
    refine ⟨r, rest, freed, rfl, ?_, ?_⟩
    · rw [hnone, List.append_nil]
      exact h
    · rw [hnone, List.nil_append]
  | cons message messages ih =>
    obtain ⟨n, rfl⟩ := Nat.exists_eq_add_of_lt (Nat.lt_of_lt_of_le (Nat.succ_pos _) hn)
    rw [Nat.zero_add] at hn hrest ⊢
    obtain ⟨hfirst, hothers⟩ := List.forall_mem_cons.mp hm
    have hgroup : (rest.take udpMaxSegments).length = udpMaxSegments := by
      rw [Nat.mul_succ] at hrest
      rw [List.length_take]
      omega
    rw [← List.take_append_drop udpMaxSegments rest] at h
    obtain ⟨u, hu, hat⟩ := h.takeMessage index hfirst hgroup
    obtain ⟨r', left, freed', hr, hat', hperm⟩ := ih hat hothers (Nat.le_of_succ_le_succ hn)
      (by rw [List.length_drop]; rw [Nat.mul_succ] at hrest; omega)
    have hcons : filledBuffers (groups (n + 1) rest) (message :: messages) =
        filled (rest.take udpMaxSegments) message.len ++
          filledBuffers (groups n (rest.drop udpMaxSegments)) messages := by
      simp [filledBuffers, groups]
    refine ⟨r', left, freed', ?_, ?_, ?_⟩
    · rw [List.foldlM_cons, hu]
      exact hr
    · rw [hcons, ← List.append_assoc]
      exact hat'
    · apply List.perm_iff_count.mpr
      intro b
      have hb := hperm.count_eq b
      have hcut := congrArg (List.count b) (List.take_append_drop udpMaxSegments rest)
      have hgroups := congrArg (List.count b)
        (List.take_append_drop (packetNumber message.len) (rest.take udpMaxSegments))
      rw [hcons, filled_eq_take]
      simp only [List.count_append] at hb hcut hgroups ⊢
      omega

lemma readMessages_partition {packets : MultiList B} (hp : packets.Inv) {n : ℕ}
    (hle : udpMaxSegments * n ≤ packets.contents.length) (index : ℕ) (addr : B → ℕ) {messages : List RecvMessage}
    (hcount : messages.length ≤ n) (hfits : ∀ message ∈ messages, Fits message) :
    ∃ r, ((messages.foldlM (Socket.takeMessage index) ⟨packets, packets.beginIterator, MultiList.empty, addr⟩).bind
        fun r => Socket.freeRest r.packets.size r) = some r ∧ r.packets.Inv ∧
      r.packets.contents = filledBuffers (groups n packets.contents) messages ∧
      (r.packets.contents ++ r.freePackets.contents).Perm packets.contents := by
  obtain ⟨hvalid, hindex⟩ := MultiList.begin_valid hp
  have hstart : At ⟨packets, packets.beginIterator, MultiList.empty, addr⟩ [] packets.contents [] :=
    ⟨hp, hvalid, rfl, hindex, MultiList.empty_related⟩
  obtain ⟨u, left, freed, hu, hat, hperm⟩ := hstart.takeMessages index hfits hcount hle
  have hfuel : left.length ≤ u.packets.size := by
    rw [hat.packets.size_eq, hat.contents, List.length_append]
    omega
  obtain ⟨r, hr, hend⟩ := hat.freeRest _ hfuel
  refine ⟨r, ?_, hend.packets, ?_, ?_⟩
  · rw [hu, Option.bind_some, hr]
  · rw [hend.contents, List.append_nil, List.nil_append]
  · rw [hend.contents, hend.free.2, List.append_nil, List.nil_append]
    rw [List.append_nil] at hperm
    exact (List.perm_append_comm.append_left _).trans hperm

theorem recvMsg_partition {packets : MultiList B} (hp : packets.Inv) (recvMessages index : ℕ) (addr : B → ℕ)
    {recvmmsg : List (List B) → Option (List RecvMessage)}
    (hk : ∀ iov messages, recvmmsg iov = some messages →
      messages.length ≤ iov.length ∧ ∀ message ∈ messages, Fits message) :
    let iov := groups (messagesSize packets recvMessages) packets.contents
    iovecs packets (messagesSize packets recvMessages) packets.beginIterator = some iov ∧
      ∃ r, recvMsg recvmmsg recvMessages index addr packets = some r ∧ r.packets.Inv ∧
        r.packets.contents = filledBuffers iov (answered recvmmsg iov) ∧
        (r.packets.contents ++ r.freePackets.contents).Perm packets.contents := by
  intro iov
  obtain ⟨hvalid, hindex⟩ := MultiList.begin_valid hp
  have hle : udpMaxSegments * messagesSize packets recvMessages ≤ packets.contents.length := by
    rw [← hp.size_eq, messagesSize]
    have hdiv := Nat.mul_div_le packets.size udpMaxSegments
    have hmin := Nat.min_le_left (packets.size / udpMaxSegments) recvMessages
    exact (Nat.mul_le_mul_left _ hmin).trans hdiv
  have hiov : iovecs packets (messagesSize packets recvMessages) packets.beginIterator = some iov := by
    rw [iovecs_spec hp _ hvalid (by rw [hindex]; omega), hindex, List.drop_zero]
  refine ⟨hiov, ?_⟩
  obtain ⟨hinv, hkept, hfree⟩ := freeAll_contents hp addr
  have hall : ((freeAll packets addr).packets.contents ++ (freeAll packets addr).freePackets.contents).Perm
      packets.contents := by rw [hkept, hfree, List.nil_append]
  by_cases hsize : messagesSize packets recvMessages = 0
  · have hnone : answered recvmmsg iov = [] := if_pos ((groups_isEmpty _ _).mpr hsize)
    refine ⟨_, by rw [recvMsg, if_pos hsize], hinv, ?_, hall⟩
    rw [hkept, hnone, filledBuffers, List.zip_nil_right, List.flatMap_nil]
  · have hanswered : answered recvmmsg iov = (recvmmsg iov).getD [] :=
      if_neg fun h => hsize ((groups_isEmpty _ _).mp h)
    rw [recvMsg, if_neg hsize, hiov, Option.bind_some, hanswered]
    cases hanswer : recvmmsg iov with
    | none =>
      refine ⟨_, rfl, hinv, ?_, hall⟩
      rw [hkept, Option.getD_none, filledBuffers, List.zip_nil_right, List.flatMap_nil]
    | some messages =>
      obtain ⟨hcount, hfits⟩ := hk iov messages hanswer
      exact readMessages_partition hp hle index addr (hcount.trans_eq (groups_length _ _)) hfits

end Keeping

def offered : MultiList ℕ := ⟨(List.range 8).map fun i => (List.range 8).map (i * 8 + ·), 64⟩

def oneMessage (iov : List (List ℕ)) : Option (List RecvMessage) := some ([⟨3000, false, 65543⟩].take iov.length)

theorem recvMsg_partition_one :
    let iov := groups (messagesSize offered 64) offered.contents
    (iovecs offered (messagesSize offered 64) offered.beginIterator = some iov ∧
      ∃ r, recvMsg oneMessage 64 1 (fun _ => 0) offered = some r ∧ r.packets.Inv ∧
        r.packets.contents = filledBuffers iov (answered oneMessage iov) ∧
        (r.packets.contents ++ r.freePackets.contents).Perm offered.contents) ∧
      filledBuffers iov (answered oneMessage iov) = [0, 1, 2] := by
  refine ⟨recvMsg_partition ⟨?_, rfl⟩ 64 1 (fun _ => 0) ?_, by decide⟩
  · rw [MultiList.Chunked]
    decide
  · rintro iov messages ⟨rfl⟩
    refine ⟨List.length_take_le _ _, fun message hmessage => ?_⟩
    cases List.mem_singleton.mp (List.mem_of_mem_take hmessage)
    exact ⟨rfl, by decide⟩

end Socket

end FastTransport.Protocol
